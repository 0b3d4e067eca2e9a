import DeviceDriverEx.MKtimer

namespace DeviceDriverEx.MKtimer

section
variable {ι : Type} [DecidableEq ι]

/-- An entry in front expires no later, and strictly earlier while it waits for its `add_timer` and
the one behind does not. -/
def Before (s : State ι) (u v : ι) : Prop :=
  s.expires u ≤ s.expires v ∧
    (s.pc v = .returned → s.pc u ≠ .returned → s.expires u < s.expires v)

/-- The list is the running entry and, in the order in which they will fire, `rest`; the pending
timers are those of `rest` whose `add_timer` has been called. -/
structure Inv (s : State ι) (rest : List ι) : Prop where
  head : s.head = s.running.toList ++ rest
  nodup : s.head.Nodup
  listed : ∀ i, i ∈ s.head ↔ (s.pc i).listed = true ∧ i ∉ s.fired
  queue : s.queue = rest.filter fun i => decide (s.pc i = .returned)
  runs : ∀ t, s.running = some t → s.pc t = .returned
  ordered : rest.Pairwise (Before s)
  own : ∀ e ∈ s.log, e.2 = some e.1 ∧ s.pc e.1 = .returned
  once : s.fired.Nodup

omit [DecidableEq ι] in
theorem Inv.mem_head {s : State ι} {rest : List ι} (h : Inv s rest) {i : ι} (hi : i ∈ rest) :
    i ∈ s.head := by
  rw [h.head]
  exact List.mem_append_right _ hi

omit [DecidableEq ι] in
theorem Inv.fired_returned {s : State ι} {rest : List ι} (h : Inv s rest) {i : ι}
    (hi : i ∈ s.fired) : s.pc i = .returned := by
  obtain ⟨e, he, rfl⟩ := List.mem_map.mp hi
  exact (h.own e he).2

omit [DecidableEq ι] in
theorem Inv.not_running {s : State ι} {rest : List ι} (h : Inv s rest) {i : ι} (hi : i ∈ rest) :
    s.running ≠ some i := by
  intro running
  have nodup := h.nodup
  rw [h.head, running] at nodup
  exact (List.nodup_cons.mp nodup).1 hi

omit [DecidableEq ι] in
/-- An entry between its `list_add_tail` and its `add_timer` is on the list and does not run. -/
theorem Inv.mem_rest {s : State ι} {rest : List ι} (h : Inv s rest) {i : ι}
    (hi : s.pc i = .add_timer) : i ∈ rest := by
  have waits : s.pc i ≠ .returned := by
    rw [hi]
    decide
  have onList : i ∈ s.head := by
    refine (h.listed i).mpr ⟨?_, fun fired => waits (h.fired_returned fired)⟩
    rw [hi]
    rfl
  rw [h.head] at onList
  obtain running | hr := List.mem_append.mp onList
  · exact absurd (h.runs i (Option.mem_toList.mp running)) waits
  · exact hr

omit [DecidableEq ι] in
/-- A listed entry whose `add_timer` has not been called waits for it. -/
theorem Inv.returned_of_listed {s : State ι} {rest : List ι} (h : Inv s rest) {i : ι}
    (onList : i ∈ s.head) (called : s.pc i ≠ .add_timer) : s.pc i = .returned := by
  have listed := ((h.listed i).mp onList).1
  cases hpc : s.pc i with
  | kzalloc => rw [hpc] at listed; cases listed
  | list_add_tail => rw [hpc] at listed; cases listed
  | add_timer => exact absurd hpc called
  | returned => rfl

omit [DecidableEq ι] in
theorem Inv.away {s : State ι} {rest : List ι} (h : Inv s rest) {i : ι} {pc : Pc}
    (hi : s.pc i = pc) (early : pc.listed = false) : i ∉ s.head := by
  intro onList
  have listed := ((h.listed i).mp onList).1
  rw [hi, early] at listed
  cases listed

/-- An entry of `rest` is there once, and the running one is ahead of it. -/
theorem Inv.split {s : State ι} {rest : List ι} (h : Inv s rest) {i : ι} (hi : i ∈ rest) :
    ∃ pre post, rest = pre ++ i :: post ∧ i ∉ pre ∧ i ∉ post ∧
      aheadOf i s.head = s.running.toList ++ pre := by
  obtain ⟨pre, post, split⟩ := List.append_of_mem hi
  have nodup := h.nodup
  rw [h.head, split] at nodup
  have inner := List.nodup_append.mp (List.nodup_append.mp nodup).2.1
  have outPre : i ∉ pre := fun hp => inner.2.2 i hp i List.mem_cons_self rfl
  refine ⟨pre, post, split, outPre, (List.nodup_cons.mp inner.2.1).1, ?_⟩
  have front : i ∉ s.running.toList ++ pre := by
    intro hm
    obtain running | hp := List.mem_append.mp hm
    · exact h.not_running hi (Option.mem_toList.mp running)
    · exact outPre hp
  rw [h.head, split, ← List.append_assoc]
  exact aheadOf_split front

omit [DecidableEq ι] in
theorem inv_init (jiffies : Nat) : Inv (init jiffies : State ι) [] := by
  refine ⟨rfl, List.nodup_nil, fun i => ?_, rfl, ?_, List.Pairwise.nil, ?_, List.nodup_nil⟩
  · simp [init, Pc.listed]
  · intro t running
    cases running
  · intro e he
    cases he

theorem inv_kzalloc {HZ : Nat} {s : State ι} {rest : List ι} {i : ι} (h : Inv s rest)
    (hi : s.pc i = .kzalloc) : Inv (next HZ s (.kzalloc i)) rest := by
  have away := h.away hi rfl
  have same : ∀ j ∈ s.head, (next HZ s (.kzalloc i)).pc j = s.pc j ∧
      (next HZ s (.kzalloc i)).expires j = s.expires j := by
    intro j hj
    have differs : j ≠ i := fun hji => away (hji ▸ hj)
    exact ⟨Function.update_of_ne differs .., Function.update_of_ne differs ..⟩
  have kept : ∀ j, s.pc j = .returned → (next HZ s (.kzalloc i)).pc j = .returned :=
    fun _ hj => returned_kept hi (by decide) hj
  refine ⟨h.head, h.nodup, fun j => ?_, ?_, ?_, ?_, ?_, h.once⟩
  · have listed : ((next HZ s (.kzalloc i)).pc j).listed = (s.pc j).listed :=
      update_tells Pc.listed (by rw [hi]; rfl) j
    rw [listed]
    exact h.listed j
  · refine h.queue.trans (List.filter_congr fun j hj => ?_)
    rw [(same j (h.mem_head hj)).1]
  · exact fun t running => kept t (h.runs t running)
  · refine h.ordered.imp_of_mem fun {u v} hu hv before => ?_
    obtain ⟨pu, eu⟩ := same u (h.mem_head hu)
    obtain ⟨pv, ev⟩ := same v (h.mem_head hv)
    rw [Before, pu, pv, eu, ev]
    exact before
  · exact fun e he => ⟨(h.own e he).1, kept _ (h.own e he).2⟩

theorem inv_list_add_tail {HZ : Nat} {s : State ι} {rest : List ι} {i : ι} (h : Inv s rest)
    (hi : s.pc i = .list_add_tail)
    (order : ∀ u ∈ s.head, s.running ≠ some u → s.expires u ≤ s.expires i) :
    Inv (next HZ s (.list_add_tail i)) (rest ++ [i]) := by
  have away := h.away hi rfl
  have waits : (next HZ s (.list_add_tail i)).pc i = .add_timer := Function.update_self ..
  have same : ∀ j, j ≠ i → (next HZ s (.list_add_tail i)).pc j = s.pc j :=
    fun j hj => Function.update_of_ne hj ..
  have kept : ∀ j, s.pc j = .returned → (next HZ s (.list_add_tail i)).pc j = .returned :=
    fun _ hj => returned_kept hi (by decide) hj
  have inRest : ∀ j ∈ rest, j ≠ i := fun j hj hji => away (hji ▸ h.mem_head hj)
  refine ⟨?_, ?_, fun j => ?_, ?_, fun t running => kept t (h.runs t running), ?_,
    fun e he => ⟨(h.own e he).1, kept _ (h.own e he).2⟩, h.once⟩
  · change s.head ++ [i] = _
    rw [h.head, List.append_assoc]
    rfl
  · change (s.head ++ [i]).Nodup
    rw [← List.concat_eq_append]
    exact List.Nodup.concat away h.nodup
  · change j ∈ s.head ++ [i] ↔ _
    by_cases hji : j = i
    · subst hji
      have unfired : j ∉ s.fired := by
        intro fired
        have returned := h.fired_returned fired
        rw [hi] at returned
        cases returned
      rw [waits]
      exact ⟨fun _ => ⟨rfl, unfired⟩, fun _ => by simp⟩
    · rw [same j hji, List.mem_append, List.mem_singleton, or_iff_left hji]
      exact h.listed j
  · rw [List.filter_append]
    have last : [i].filter (fun j => decide ((next HZ s (.list_add_tail i)).pc j = .returned)) =
        [] := by
      rw [List.filter_cons_of_neg (by simp [waits]), List.filter_nil]
    rw [last, List.append_nil]
    refine h.queue.trans (List.filter_congr fun j hj => ?_)
    rw [same j (inRest j hj)]
  · refine List.pairwise_append.mpr ⟨?_, List.pairwise_singleton _ i, ?_⟩
    · refine h.ordered.imp_of_mem fun {u v} hu hv before => ?_
      rw [Before, same u (inRest u hu), same v (inRest v hv)]
      exact before
    · intro u hu v hv
      cases List.mem_singleton.mp hv
      refine ⟨order u (h.mem_head hu) (h.not_running hu), fun returned => ?_⟩
      rw [waits] at returned
      cases returned

theorem inv_add_timer {HZ : Nat} {s : State ι} {rest : List ι} {i : ι} (h : Inv s rest)
    (hi : s.pc i = .add_timer)
    (order : ∀ u ∈ aheadOf i s.head, s.pc u = .add_timer → s.expires u < s.expires i) :
    Inv (next HZ s (.add_timer i)) rest := by
  have now : (next HZ s (.add_timer i)).pc i = .returned := Function.update_self ..
  have same : ∀ j, j ≠ i → (next HZ s (.add_timer i)).pc j = s.pc j :=
    fun j hj => Function.update_of_ne hj ..
  have kept : ∀ j, s.pc j = .returned → (next HZ s (.add_timer i)).pc j = .returned := by
    intro j hj
    by_cases hji : j = i
    · rw [hji]
      exact now
    · exact (same j hji).trans hj
  obtain ⟨pre, post, split, outPre, outPost, ahead⟩ := h.split (h.mem_rest hi)
  have sorted := h.ordered
  rw [split] at sorted
  obtain ⟨_, sortedPost, across⟩ := List.pairwise_append.mp sorted
  have behind := (List.pairwise_cons.mp sortedPost).1
  refine ⟨h.head, h.nodup, fun j => ?_, ?_, fun t running => kept t (h.runs t running), ?_,
    fun e he => ⟨(h.own e he).1, kept _ (h.own e he).2⟩, h.once⟩
  · have listed : ((next HZ s (.add_timer i)).pc j).listed = (s.pc j).listed :=
      update_tells Pc.listed (by rw [hi]; rfl) j
    rw [listed]
    exact h.listed j
  · change enqueue s.expires i s.queue = _
    rw [h.queue, split]
    refine enqueue_filter (by simp [hi]) (by simp [now]) (fun u hu => ?_) (fun u hu _ => ?_)
      fun u hu returned => ?_
    · have differs : u ≠ i := by
        intro hui
        exact (List.mem_append.mp hu).elim (hui ▸ outPre) (hui ▸ outPost)
      rw [same u differs]
    · exact (across u hu i List.mem_cons_self).1
    · exact (behind u hu).2 (by simpa using returned) (by rw [hi]; decide)
  · have still : ∀ {u v}, u ≠ i → v ≠ i → Before s u v → Before (next HZ s (.add_timer i)) u v := by
      intro u v hu hv before
      rw [Before, same u hu, same v hv]
      exact before
    have notPre : ∀ u ∈ pre, u ≠ i := fun u hu hui => outPre (hui ▸ hu)
    have notPost : ∀ u ∈ post, u ≠ i := fun u hu hui => outPost (hui ▸ hu)
    obtain ⟨sortedPre, _, _⟩ := List.pairwise_append.mp sorted
    rw [split]
    refine List.pairwise_append.mpr ⟨?_, List.pairwise_cons.mpr ⟨?_, ?_⟩, ?_⟩
    · exact sortedPre.imp_of_mem fun {u v} hu hv => still (notPre u hu) (notPre v hv)
    · exact fun v hv => ⟨(behind v hv).1, fun _ pi => absurd now pi⟩
    · exact (List.pairwise_cons.mp sortedPost).2.imp_of_mem fun {u v} hu hv =>
        still (notPost u hu) (notPost v hv)
    · intro u hu v hv
      have before := across u hu v hv
      rcases List.mem_cons.mp hv with rfl | hv
      · refine ⟨before.1, fun _ pu => ?_⟩
        rw [same u (notPre u hu)] at pu
        have waits : s.pc u = .add_timer := by
          by_contra called
          exact pu (h.returned_of_listed (h.mem_head (by simp [split, hu])) called)
        exact order u (by rw [ahead]; exact List.mem_append_right _ hu) waits
      · exact still (notPre u hu) (notPost v hv) before

/-- The timer that comes to run is the one of the first entry on the list. -/
theorem inv_expire {HZ : Nat} {s : State ι} {rest : List ι} (h : Inv s rest)
    (enabled : Enabled s .expire) (order : InOrder s .expire) :
    ∃ t others, rest = t :: others ∧ Inv (next HZ s .expire) others := by
  obtain ⟨idle, t, ht, _⟩ := enabled
  have whole : s.head = rest := by
    rw [h.head, idle]
    rfl
  have pending : t ∈ rest.filter fun i => decide (s.pc i = .returned) := by
    rw [← h.queue]
    exact List.mem_of_mem_head? ht
  obtain ⟨hm, hp⟩ := List.mem_filter.mp pending
  have returned : s.pc t = .returned := by simpa using hp
  obtain ⟨pre, post, split, out, _, ahead⟩ := h.split hm
  rw [idle] at ahead
  have called : ∀ u ∈ pre, s.pc u = .returned := by
    intro u hu
    refine h.returned_of_listed (h.mem_head (by simp [split, hu])) ?_
    exact order t ht u (by rw [ahead]; exact List.mem_append_right _ hu)
  have first : pre = [] := by
    cases hpre : pre with
    | nil => rfl
    | cons u us =>
      have head : s.queue.head? = some u := by
        rw [h.queue, split, hpre, List.cons_append,
          List.filter_cons_of_pos (by simp [called u (by simp [hpre])])]
        rfl
      have same : u = t := Option.some.inj (head.symm.trans ht)
      exact absurd (by simp [hpre, same]) out
  subst first
  rw [List.nil_append] at split
  have tail : s.queue = t :: post.filter fun i => decide (s.pc i = .returned) := by
    rw [h.queue, split, List.filter_cons_of_pos (by simp [returned])]
  refine ⟨t, post, split, ?_, h.nodup, h.listed, ?_, ?_, ?_, h.own, h.once⟩
  · change s.head = s.queue.head?.toList ++ post
    rw [whole, split, tail]
    rfl
  · change s.queue.tail = _
    rw [tail]
    rfl
  · intro u running
    have same : u = t := Option.some.inj (running.symm.trans ht)
    exact same ▸ returned
  · have sorted := h.ordered
    rw [split] at sorted
    exact (List.pairwise_cons.mp sorted).2

omit [DecidableEq ι] in
theorem inv_timer_func {s : State ι} {rest : List ι} {t : ι} (h : Inv s rest)
    (running : s.running = some t) : Inv (timer_func s t) rest := by
  have head : s.head = t :: rest := by
    rw [h.head, running]
    rfl
  have nodup := h.nodup
  rw [head] at nodup
  have unfired : t ∉ s.fired := ((h.listed t).mp (by simp [head])).2
  refine ⟨?_, ?_, fun i => ?_, h.queue, ?_, h.ordered, ?_, ?_⟩
  · change s.head.tail = _
    rw [head]
    rfl
  · change s.head.tail.Nodup
    rw [head]
    exact (List.nodup_cons.mp nodup).2
  · change i ∈ s.head.tail ↔ (s.pc i).listed = true ∧ i ∉ t :: s.fired
    have old := h.listed i
    rw [head, List.mem_cons] at old
    rw [head, List.tail_cons, List.mem_cons, not_or]
    constructor
    · intro hi
      have differs : i ≠ t := fun hit => (List.nodup_cons.mp nodup).1 (hit ▸ hi)
      exact ⟨(old.mp (Or.inr hi)).1, differs, (old.mp (Or.inr hi)).2⟩
    · intro hi
      exact (old.mpr ⟨hi.1, hi.2.2⟩).resolve_left hi.2.1
  · intro u none
    cases none
  · intro e he
    rcases List.mem_cons.mp he with rfl | he
    · exact ⟨by rw [head]; rfl, h.runs t running⟩
    · exact h.own e he
  · exact List.nodup_cons.mpr ⟨unfired, h.once⟩

theorem inv_next {HZ : Nat} {s : State ι} {rest : List ι} {a : Act ι} (h : Inv s rest)
    (enabled : Enabled s a) (order : InOrder s a) : ∃ rest', Inv (next HZ s a) rest' := by
  cases a with
  | kzalloc i => exact ⟨rest, inv_kzalloc h enabled⟩
  | list_add_tail i => exact ⟨rest ++ [i], inv_list_add_tail h enabled order⟩
  | add_timer i => exact ⟨rest, inv_add_timer h enabled order⟩
  | tick => exact ⟨rest, h.head, h.nodup, h.listed, h.queue, h.runs, h.ordered, h.own, h.once⟩
  | expire =>
    obtain ⟨_, others, _, kept⟩ := inv_expire h enabled order
    exact ⟨others, kept⟩
  | timer_func =>
    obtain ⟨t, running⟩ := Option.ne_none_iff_exists'.mp enabled
    refine ⟨rest, ?_⟩
    simp only [next, running]
    exact inv_timer_func h running

omit [DecidableEq ι] in
theorem Inv.ownEntries {s : State ι} {rest : List ι} (h : Inv s rest) : OwnEntries s := by
  refine ⟨fun e he => (h.own e he).1, ?_, ?_, ?_, h.listed⟩
  · intro e he i freed
    have same : e.1 = i := Option.some.inj ((h.own e he).1.symm.trans freed)
    have away : i ∉ s.head := by
      intro onList
      exact ((h.listed i).mp onList).2 (same ▸ List.mem_map_of_mem he)
    refine ⟨fun pending => ?_, fun running => ?_, same ▸ (h.own e he).2⟩
    · rw [h.queue] at pending
      exact away (h.mem_head (List.mem_filter.mp pending).1)
    · refine away ?_
      rw [h.head, running]
      exact List.mem_cons_self
  · have freed : s.log.map Prod.snd = s.fired.map some := by
      rw [State.fired, List.map_map]
      exact List.map_congr_left fun e he => (h.own e he).1
    rw [freed]
    exact h.once.map fun _ _ same => Option.some.inj same
  · intro running empty
    rw [h.head] at empty
    obtain ⟨t, ht⟩ := Option.ne_none_iff_exists'.mp running
    rw [ht] at empty
    cases empty

omit [DecidableEq ι] in
theorem not_ownEntries {s : State ι} {t : ι} {e : Option ι} (logged : (t, e) ∈ s.log)
    (foreign : e ≠ some t) : ¬ OwnEntries s :=
  fun h => foreign (h.own _ logged)

theorem run_timer_func (HZ : Nat) {s : State ι} {t : ι}
    (running : s.running = some t) : Run (machine HZ) s [.timer_func] (timer_func s t) := by
  have busy : Enabled s .timer_func := by
    intro idle
    rw [running] at idle
    cases idle
  have stepped := Run.next (m := machine HZ) (a := .timer_func) Run.start busy
  have same : next HZ s .timer_func = timer_func s t := by simp only [next, running]
  change Run (machine HZ) s [.timer_func] (next HZ s .timer_func) at stepped
  rwa [same] at stepped

theorem run_first (HZ : Nat) {s : State ι} {t : ι} {others : List ι} (idle : s.running = none)
    (first : s.queue = t :: others) : ∃ as jiffies, Run (machine HZ) s as
      (timer_func { s with jiffies := jiffies, queue := others } t) := by
  have ticks : Run (machine HZ) s _ { s with jiffies := s.jiffies + s.expires t } :=
    (clock HZ).run_ticks s (s.expires t)
  have due : Enabled { s with jiffies := s.jiffies + s.expires t } .expire :=
    ⟨idle, t, by rw [first]; rfl, Nat.le_add_left _ _⟩
  have expired := Run.next (m := machine HZ) (a := .expire) ticks due
  have runs : next HZ { s with jiffies := s.jiffies + s.expires t } .expire =
      { s with jiffies := s.jiffies + s.expires t, queue := others, running := some t } := by
    simp only [next, first, List.head?_cons, List.tail_cons]
  change Run (machine HZ) s _ (next HZ _ .expire) at expired
  rw [runs] at expired
  exact ⟨_, s.jiffies + s.expires t, run_append expired (run_timer_func HZ rfl)⟩

/-- Once a timer is pending whose entry has another in front of it on the list, and that other
does not fire before it, some timer can come to free a foreign entry. -/
theorem foreign_of_pending (HZ : Nat) {t u : ι} {behind : List ι} (before : List ι) (s : State ι)
    (idle : s.running = none) (pending : s.queue = before ++ t :: behind) (later : u ∉ before)
    (ahead : u ∈ aheadOf t s.head) : ∃ as s', Run (machine HZ) s as s' ∧ ¬ OwnEntries s' := by
  induction before generalizing s with
  | nil =>
    obtain ⟨as, jiffies, run⟩ := run_first HZ idle pending
    exact ⟨as, _, run, not_ownEntries List.mem_cons_self (head?_ne_of_aheadOf ahead)⟩
  | cons v before ih =>
    obtain ⟨as, jiffies, run⟩ := run_first HZ idle pending
    by_cases own : s.head.head? = some v
    · have differs : s.head.head? ≠ some u := by
        intro first
        have same : v = u := Option.some.inj (own.symm.trans first)
        exact later (same ▸ List.mem_cons_self)
      obtain ⟨bs, s', rest, foreign⟩ :=
        ih (timer_func { s with jiffies := jiffies, queue := before ++ t :: behind } v) rfl rfl
          (fun hu => later (List.mem_cons_of_mem _ hu)) (aheadOf_tail ahead differs)
      exact ⟨as ++ bs, s', run_append run rest, foreign⟩
    · exact ⟨as, _, run, not_ownEntries List.mem_cons_self own⟩

theorem foreign_of_overtaken (HZ : Nat) {t u : ι} {before behind : List ι} {s : State ι}
    (pending : s.queue = before ++ t :: behind) (later : u ∉ before) (idle : s.running ≠ some u)
    (ahead : u ∈ aheadOf t s.head) : ∃ as s', Run (machine HZ) s as s' ∧ ¬ OwnEntries s' := by
  cases running : s.running with
  | none => exact foreign_of_pending HZ before s running pending later ahead
  | some r =>
    have run := run_timer_func HZ running
    by_cases own : s.head.head? = some r
    · have differs : s.head.head? ≠ some u := by
        intro first
        exact idle (running.trans (own.symm.trans first))
      obtain ⟨as, s', rest, foreign⟩ := foreign_of_pending HZ before (timer_func s r) rfl pending
        later (aheadOf_tail ahead differs)
      exact ⟨_, s', run_append run rest, foreign⟩
    · exact ⟨_, _, run, not_ownEntries List.mem_cons_self own⟩

/-- A step out of order leaves it to the clock and the other writers whether a timer frees a foreign
entry. -/
theorem foreign_of_disorder (HZ : Nat) {s : State ι} {rest : List ι} {a : Act ι} (h : Inv s rest)
    (enabled : Enabled s a) (disorder : ¬ InOrder s a) :
    ∃ as s', Run (machine HZ) (next HZ s a) as s' ∧ ¬ OwnEntries s' := by
  cases a with
  | kzalloc i => exact absurd trivial disorder
  | tick => exact absurd trivial disorder
  | timer_func => exact absurd trivial disorder
  | list_add_tail i =>
    have hi : s.pc i = .list_add_tail := enabled
    simp only [InOrder, not_forall, Nat.not_le] at disorder
    obtain ⟨u, hu, idle, later⟩ := disorder
    have away := h.away hi rfl
    have listed : Run (machine HZ) (next HZ s (.list_add_tail i)) [] _ := Run.start
    have added := Run.next (m := machine HZ) (a := .add_timer i) listed (Function.update_self ..)
    obtain ⟨before, behind, pending, _, sooner⟩ :=
      enqueue_split s.expires i s.queue
    have ahead : u ∈ aheadOf i (s.head ++ [i]) := by
      rw [aheadOf_split away]
      exact hu
    obtain ⟨as, s', run, foreign⟩ := foreign_of_overtaken HZ
      (s := next HZ (next HZ s (.list_add_tail i)) (.add_timer i)) pending
      (fun hb => Nat.not_le.mpr later (sooner u hb)) idle ahead
    exact ⟨_, s', run_append added run, foreign⟩
  | add_timer i =>
    simp only [InOrder, not_forall] at disorder
    obtain ⟨u, ahead, waits, _⟩ := disorder
    obtain ⟨before, behind, pending, whole, _⟩ :=
      enqueue_split s.expires i s.queue
    have unqueued : u ∉ before := by
      intro hb
      have queued : u ∈ s.queue := by
        rw [whole]
        exact List.mem_append_left _ hb
      rw [h.queue, List.mem_filter, waits] at queued
      simp at queued
    exact foreign_of_overtaken HZ (s := next HZ s (.add_timer i)) pending unqueued
      (h.not_running (h.mem_rest waits)) ahead
  | expire =>
    simp only [InOrder, not_forall] at disorder
    obtain ⟨t, first, u, ahead, _⟩ := disorder
    have running : (next HZ s .expire).running = some t := first
    have foreign : s.head.head? ≠ some t := head?_ne_of_aheadOf ahead
    exact ⟨_, _, run_timer_func HZ running, not_ownEntries List.mem_cons_self foreign⟩

/-- In every run whose writers keep the three orders together, whatever the interleaving, each
timer frees its own entry, once and when it is no longer pending, and the list holds exactly the
entries that were put on it and have not fired. From the first step that does not keep them, a run
goes on to free a foreign entry. -/
theorem timer_frees_own_entry {HZ jiffies : Nat} {as : List (Act ι)} {s : State ι}
    (h : Run (machine HZ) (init jiffies) as s)
    (order : Meets (machine HZ) InOrder (init jiffies) as) :
    OwnEntries s ∧ ∀ a, Enabled s a → ¬ InOrder s a →
      ∃ bs t, Run (machine HZ) (init jiffies) (as ++ a :: bs) t ∧ ¬ OwnEntries t := by
  have inv : ∃ rest, Inv s rest :=
    run_invariant_of_meets (I := fun t => ∃ rest, Inv t rest) ⟨[], inv_init jiffies⟩
      (fun t a inv enabled ok => inv_next inv.choose_spec enabled ok) h order
  obtain ⟨_, inv⟩ := inv
  refine ⟨inv.ownEntries, fun a enabled disorder => ?_⟩
  obtain ⟨bs, t, run, foreign⟩ := foreign_of_disorder HZ inv enabled disorder
  exact ⟨bs, t, run_append h (run_cons enabled run), foreign⟩

end

/-- A second call comes between the end of the first and its expiry. -/
theorem timer_frees_own_entry_twice :
    let as : List (Act (Fin 2)) := [.kzalloc 0, .list_add_tail 0, .add_timer 0, .tick, .kzalloc 1,
      .list_add_tail 1, .add_timer 1, .tick, .tick, .tick, .tick, .tick, .tick, .tick, .tick, .tick,
      .expire, .timer_func]
    OwnEntries ((machine 1).replay (init 0) as) := by
  intro as
  have run : Run (machine 1) (init 0) as ((machine 1).replay (init 0) as) :=
    run_of_admits (by decide)
  exact (timer_frees_own_entry run (meets_of_replay (by decide))).1

/-- Two calls in the same tick: the second gets its entry on the list first, the first its timer.
Ten seconds later, with `HZ` 100, the first timer frees the entry of the second, whose timer is
pending. -/
theorem timer_frees_foreign_entry :
    ∃ as s, Run (machine 100) (init 0 : State (Fin 2)) as s ∧ s.log = [(0, some 1)] ∧
      s.queue = [1] ∧ ¬ OwnEntries s := by
  let calls : List (Act (Fin 2)) := [.kzalloc 0, .kzalloc 1, .list_add_tail 1, .list_add_tail 0,
    .add_timer 0, .add_timer 1]
  have written : Run (machine 100) (init 0) calls ((machine 100).replay (init 0) calls) :=
    run_of_admits (by decide)
  obtain ⟨as, jiffies, fired⟩ := run_first 100
    (s := (machine 100).replay (init 0) calls) (t := 0) rfl
    (show ((machine 100).replay (init 0) calls).queue = [0, 1] by decide)
  exact ⟨_, _, run_append written fired, rfl, rfl,
    not_ownEntries (t := 0) (e := some 1) List.mem_cons_self (by decide)⟩

end DeviceDriverEx.MKtimer
