import DeviceDriverEx.GlobalmemSerialSteps

namespace DeviceDriverEx.Rwsem

section
variable {ι δ : Type} [DecidableEq ι] [DecidableEq δ]

/-- The calls in the order in which they completed their copies. -/
def commits (as : List (Act ι)) : List ι := as.flatMap Act.commit

omit [DecidableEq ι] in
theorem mem_commits {as : List (Act ι)} {i : ι} : i ∈ commits as ↔ Act.finish i ∈ as := by
  rw [commits, List.mem_flatMap]
  constructor
  · intro hex
    obtain ⟨a, ha, hi⟩ := hex
    cases a with
    | finish j =>
      rw [List.mem_singleton.mp hi]
      exact ha
    | _ => cases hi
  · intro ha
    exact ⟨.finish i, ha, List.mem_singleton_self i⟩

/-- No write and no clear of the device is half done. -/
def Settled (call : ι → Op δ) (s : State ι δ) (d : δ) : Prop :=
  ∀ j, Storing call s d j ∨ Clearing call s d j → (s.frame j).moved = 0

omit [DecidableEq ι] in
instance [Fintype ι] (call : ι → Op δ) (s : State ι δ) (d : δ) :
    Decidable (Settled call s d) :=
  inferInstanceAs (Decidable (∀ j, Storing call s d j ∨ Clearing call s d j → (s.frame j).moved = 0))

theorem follows_run {call : ι → Op δ} {mem : δ → Bytes} {as : List (Act ι)} {s : State ι δ}
    (inside : ∀ i, (call i).ppos.toUInt64 < GLOBALMEM_SIZE) (intact : ∀ i pads, Act.fault i pads ∉ as)
    (meets : Meets (machine call) (ClearsApart call) (init call mem) as)
    (h : Run (machine call) (init call mem) as s) : Follows call mem (commits as) s := by
  induction h with
  | start => exact follows_init call mem
  | @next as s a previous enabled ih =>
    have earlier := ih (fun i pads hi => intact i pads (List.mem_append_left _ hi)) (meets_before meets)
    have step : commits (as ++ [a]) = commits as ++ a.commit := by
      simp [commits, List.flatMap_append]
    rw [step]
    refine follows_next inside earlier enabled (meets_last meets previous) ?_
    rintro i pads rfl
    exact intact i pads (List.mem_append_right _ (List.mem_singleton_self _))

omit [DecidableEq ι] in
theorem Follows.result_of_mem {call : ι → Op δ} {mem : δ → Bytes} {before after : List ι} {i : ι}
    {s : State ι δ} (h : Follows call mem (before ++ i :: after) s) :
    ((call i).exec (serialMem call mem before)).1 = (s.frame i).result := by
  have split : ∀ (m : δ → Bytes) (xs : List ι), serial call m (xs ++ i :: after) =
      serial call m xs ++ (i, ((call i).exec (serialMem call m xs)).1) ::
        serial call ((call i).exec (serialMem call m xs)).2 after := by
    intro m xs
    induction xs generalizing m with
    | nil => rfl
    | cons x xs ih => simp only [List.cons_append, serial, ih, serialMem, List.foldl_cons]
  have lengths : ∀ (m : δ → Bytes) (xs : List ι), (serial call m xs).length = xs.length := by
    intro m xs
    induction xs generalizing m with
    | nil => rfl
    | cons x xs ih => simp only [serial, List.length_cons, ih]
  have results := h.results
  rw [split, List.map_append, List.map_cons] at results
  have tails := List.append_inj_right results (by rw [lengths, List.length_map])
  exact (Prod.mk.inj (List.cons.inj tails).1).2

/-- The clears being kept apart, a completed read has returned the device's bytes of one moment
at which it held `rwsem` and nothing of the device was half written or half cleared. -/
theorem read_snapshot {call : ι → Op δ} {mem : δ → Bytes} {as : List (Act ι)} {s : State ι δ}
    (inside : ∀ i, (call i).ppos.toUInt64 < GLOBALMEM_SIZE) (intact : ∀ i pads, Act.fault i pads ∉ as)
    (meets : Meets (machine call) (ClearsApart call) (init call mem) as)
    (h : Run (machine call) (init call mem) as s) {i : ι} {dev : δ} {buf : Bytes} {count : UInt64}
    {ppos : Int64} (hc : call i = .read dev buf count ppos) (done : (s.frame i).pc.ended = true) :
    ∃ pre post u, as = pre ++ post ∧ Run (machine call) (init call mem) pre u ∧
      (u.frame i).pc.held = true ∧ Settled call u dev ∧
      (s.frame i).rval.toInt = windowLen ppos.toUInt64.toNat count ∧
      ∀ k < windowLen ppos.toUInt64.toNat count,
        (s.frame i).buf k = u.mem dev (ppos.toUInt64.toNat + k) := by
  have final := follows_run inside intact meets h
  obtain ⟨pre, post, rfl⟩ := List.append_of_mem (mem_commits.mp ((final.committed i).mpr done))
  obtain ⟨u, hu, hcopy, _⟩ := run_before h
  have at_u := follows_run inside (fun j pads hj => intact j pads (List.mem_append_left _ hj))
    (meets_before meets) hu
  have mode : (call i).mode = some .read := by rw [hc]; rfl
  have mine : Inside (call i) (u.frame i) :=
    ⟨by rw [mode]; exact Option.some_ne_none _, by rw [hcopy]; rfl⟩
  have busy : Busy call u dev := ⟨i, by rw [hc]; rfl, mine⟩
  have idle := at_u.lock.no_store mine (d := dev) fun hst => by cases mode.symm.trans hst.1
  have settled : Settled call u dev := by
    intro j storing
    obtain hst | hcl := storing
    · exact absurd hst (idle j)
    · by_contra begun
      exact at_u.apart dev busy ⟨j, hcl, Nat.pos_of_ne_zero begun⟩
  have order : commits (pre ++ .finish i :: post) = commits pre ++ i :: commits post := by
    simp [commits, List.flatMap_append, Act.commit]
  rw [order] at final
  have pos : ppos.toUInt64 < GLOBALMEM_SIZE := by simpa only [hc, Op.ppos] using inside i
  have window : (clampCount ppos.toUInt64 count).toNat = windowLen ppos.toUInt64.toNat count :=
    clampCount_toNat pos
  have small := windowLen_le ppos.toUInt64.toNat count
  have result := final.result_of_mem
  rw [hc, exec_read pos, ← at_u.agrees busy idle, window] at result
  obtain ⟨hrval, _, hbuf⟩ := CallResult.mk.inj result
  refine ⟨pre, _, u, rfl, hu, mine.2, settled, ?_, fun k hk => ?_⟩
  · rw [← hrval, narrow_toInt (by omega), window]
  · rw [← hbuf, copyBytes_front hk]

/-- Reads are atomic snapshots, and the run has the results of its calls made one at a time in an
order that respects their order in time, if the clears keep clear of the reads and writes. -/
theorem reads_atomic {call : ι → Op δ} {mem : δ → Bytes} {as : List (Act ι)} {s : State ι δ}
    (inside : ∀ i, (call i).ppos.toUInt64 < GLOBALMEM_SIZE) (intact : ∀ i pads, Act.fault i pads ∉ as)
    (meets : Meets (machine call) (ClearsApart call) (init call mem) as)
    (h : Run (machine call) (init call mem) as s) :
    (∀ i dev buf count ppos, call i = .read dev buf count ppos → (s.frame i).pc = .returned →
      ∃ pre post u, as = pre ++ post ∧ Run (machine call) (init call mem) pre u ∧
        (u.frame i).pc.held = true ∧ Settled call u dev ∧
        (s.frame i).rval.toInt = windowLen ppos.toUInt64.toNat count ∧
        ∀ k < windowLen ppos.toUInt64.toNat count,
          (s.frame i).buf k = u.mem dev (ppos.toUInt64.toNat + k)) ∧
    ∃ order : List ι, order.Nodup ∧ (∀ i, (s.frame i).pc = .returned → i ∈ order) ∧
      (serial call mem order = order.map fun i => (i, (s.frame i).result)) ∧
      (∀ d, (∀ j, ¬ Storing call s d j ∧ ¬ Clearing call s d j) →
        s.mem d = serialMem call mem order d) ∧
      ∀ pre post u, as = pre ++ post → Run (machine call) (init call mem) pre u →
        ∃ before after, order = before ++ after ∧
          (∀ i, (u.frame i).pc = .returned → i ∈ before) ∧
          ∀ i ∈ before, (u.frame i).pc.ended = true := by
  have final := follows_run inside intact meets h
  refine ⟨fun i dev buf count ppos hc hr => ?_, commits as, final.nodup, fun i hr => ?_,
    final.results, fun d quiet => ?_, fun pre post u split hu => ?_⟩
  · exact read_snapshot inside intact meets h hc (by rw [hr]; rfl)
  · exact (final.committed i).mpr (by rw [hr]; rfl)
  · funext x
    rcases final.calm d (fun j => (quiet j).1) x with agree | ⟨j, hcl, _⟩
    · exact agree
    · exact absurd hcl (quiet j).2
  · subst split
    have at_u := follows_run inside (fun j pads hj => intact j pads (List.mem_append_left _ hj))
      (meets_before meets) hu
    refine ⟨commits pre, commits post, by simp [commits, List.flatMap_append], fun i hr => ?_,
      fun i hi => (at_u.committed i).mp hi⟩
    exact (at_u.committed i).mpr (by rw [hr]; rfl)

end

/-- A write, a read, and a clear that begins when both have returned. -/
theorem reads_atomic_in_turn :
    let call : Fin 3 → Op Unit := fun i =>
      if i = 0 then .write () (fun k => if k = 0 then 1 else 2) 2 0
      else if i = 1 then .read () (fun _ => 9) 2 0 else .clear ()
    let as : List (Act (Fin 3)) := [.down 0, .check 0, .byte 0, .byte 0, .finish 0, .up 0, .down 1,
      .check 1, .byte 1, .byte 1, .finish 1, .up 1, .byte 2, .byte 2]
    let s := (machine call).replay (init call fun _ _ => 0) as
    ∃ order : List (Fin 3), order.Nodup ∧ 0 ∈ order ∧ 1 ∈ order ∧
      serial call (fun _ _ => 0) order = order.map fun i => (i, (s.frame i).result) := by
  intro call as s
  have run : Run (machine call) (init call fun _ _ => 0) as s := run_of_admits (by decide)
  obtain ⟨_, order, nodup, returned, results, _⟩ :=
    reads_atomic (by decide) (by decide) (meets_of_replay (by decide)) run
  exact ⟨order, nodup, returned 0 (by decide), returned 1 (by decide), results⟩

/-- A clear that does not wait for the read: the read returns the first byte of the write and the
second of the clear, which the settled device never showed together. -/
theorem read_torn_by_clear :
    let call : Fin 3 → Op Unit := fun i =>
      if i = 0 then .write () (fun k => if k = 0 then 1 else 2) 2 0
      else if i = 1 then .read () (fun _ => 9) 2 0 else .clear ()
    let as : List (Act (Fin 3)) := [.down 0, .check 0, .byte 0, .byte 0, .finish 0, .up 0, .down 1,
      .check 1, .byte 1, .byte 2, .byte 2, .byte 1, .finish 1, .up 1]
    ∃ s, Run (machine call) (init call fun _ _ => 0) as s ∧ (s.frame 1).pc = .returned ∧
      (s.frame 1).rval = 2 ∧ (s.frame 1).buf 0 = 1 ∧ (s.frame 1).buf 1 = 0 ∧
      ¬ ∃ pre post u, as = pre ++ post ∧ Run (machine call) (init call fun _ _ => 0) pre u ∧
        Settled call u () ∧ ∀ k < 2, (s.frame 1).buf k = u.mem () k := by
  intro call as
  refine ⟨(machine call).replay (init call fun _ _ => 0) as, run_of_admits (by decide), by decide,
    by decide, by decide, by decide, ?_⟩
  intro snapshot
  obtain ⟨pre, post, u, split, run, settled, same⟩ := snapshot
  have hpre : pre = as.take pre.length := by rw [split, List.take_left]
  have short : pre.length < 15 := by
    have length := congrArg List.length split
    rw [List.length_append] at length
    change 14 = _ at length
    omega
  have never : ∀ n < 15, ¬ (Settled call
      ((machine call).replay (init call fun _ _ => 0) (as.take n)) () ∧
      ((machine call).replay (init call fun _ _ => 0) (as.take n)).mem () 0 = 1 ∧
      ((machine call).replay (init call fun _ _ => 0) (as.take n)).mem () 1 = 0) := by
    decide
  have hu := run_replay run
  rw [hpre] at hu
  subst hu
  exact never pre.length short ⟨settled, (same 0 (by decide)).symm, (same 1 (by decide)).symm⟩

end DeviceDriverEx.Rwsem
