import DeviceDriverEx.GlobalmemModule

namespace DeviceDriverEx.Globalmem

section
variable {ω : Type} {K : Kernel ω} {g : Globals ω} {lab : Lab}

theorem setMajor_N_GLOBALMEM : (g.setMajor K).N_GLOBALMEM = g.N_GLOBALMEM := by
  unfold Globals.setMajor
  split <;> rfl

theorem setMajor_kcache : (g.setMajor K).kcache = g.kcache := by
  unfold Globals.setMajor
  split <;> rfl

theorem setMajor_devices : (g.setMajor K).devices = g.devices := by
  unfold Globals.devices
  rw [setMajor_N_GLOBALMEM]

/-- The three ways through the part that the drivers share. -/
theorem load_region_failed (failed : (g.region K).2 < 0) :
    load lab K g = ⟨(g.region K).2, g.setMajor K,
      [.register_chrdev_region (g.region K).1 g.N_GLOBALMEM (g.region K).2]⟩ := by
  unfold load
  simp only [failed, if_true, setMajor_N_GLOBALMEM]

theorem load_array_failed (registered : ¬ (g.region K).2 < 0)
    (failed : K.kmalloc g.N_GLOBALMEM = none) :
    load lab K g = ⟨-ENOMEM, { g.setMajor K with devp := none },
      [.register_chrdev_region (g.region K).1 g.N_GLOBALMEM (g.region K).2,
        .kmalloc g.N_GLOBALMEM none,
        .unregister_chrdev_region (g.region K).1 g.N_GLOBALMEM]⟩ := by
  unfold load
  simp only [registered, if_false, setMajor_N_GLOBALMEM, failed]

theorem load_done {p : ω} (registered : ¬ (g.region K).2 < 0)
    (allocated : K.kmalloc g.N_GLOBALMEM = some p) :
    load lab K g = ⟨0, Globals.setRamdisks lab K { g.setMajor K with devp := some p },
      [.register_chrdev_region (g.region K).1 g.N_GLOBALMEM (g.region K).2,
        .kmalloc g.N_GLOBALMEM (some p)] ++
      get_ramdisks lab K { g.setMajor K with devp := some p } ++
      globalmem_setup_cdev K { g.setMajor K with devp := some p }⟩ := by
  unfold load
  simp only [registered, if_false, setMajor_N_GLOBALMEM, allocated]

theorem loaded_of_done (done : (load lab K g).rval = 0) :
    ∃ p, ¬ (g.region K).2 < 0 ∧ K.kmalloc g.N_GLOBALMEM = some p := by
  by_cases registered : (g.region K).2 < 0
  · rw [load_region_failed registered] at done
    change (g.region K).2 = 0 at done
    rw [done] at registered
    cases registered
  · cases allocated : K.kmalloc g.N_GLOBALMEM with
    | none =>
      rw [load_array_failed registered allocated] at done
      cases done
    | some p => exact ⟨p, registered, rfl⟩

theorem load_ramdisk {p : ω} {i : Nat} (registered : ¬ (g.region K).2 < 0)
    (allocated : K.kmalloc g.N_GLOBALMEM = some p) (fills : lab.fills = true)
    (hi : i ∈ g.devices) : (load lab K g).globals.ramdisk i = K.get_free_pages i := by
  have devices : i ∈ ({ g.setMajor K with devp := some p } : Globals ω).devices :=
    setMajor_devices.symm ▸ hi
  rw [load_done registered allocated]
  simp only [Globals.setRamdisks, fills, if_true]
  exact if_pos devices

theorem acquired_loop {is : List Nat} {f : Nat → List (Call ω)} :
    (effects ω).acquired (is.flatMap f) = is.flatMap fun i => (effects ω).acquired (f i) :=
  List.filterMap_flatMap

theorem released_loop {is : List Nat} {f : Nat → List (Call ω)} :
    (effects ω).released (is.flatMap f) = is.flatMap fun i => (effects ω).released (f i) :=
  List.filterMap_flatMap

/-- The devices of a loop that `cdev_add` adds. -/
def added (K : Kernel ω) (is : List Nat) : List (Resource ω) :=
  is.flatMap fun i => if K.cdev_add i < 0 then [] else [.cdev i]

/-- The pages that a loop over the ramdisks obtains. -/
def filled (lab : Lab) (K : Kernel ω) (is : List Nat) : List (Resource ω) :=
  if lab.fills then
    is.flatMap fun i => ((K.get_free_pages i).map (Resource.pages · order)).toList
  else []

theorem acquired_setup_cdev :
    (effects ω).acquired (globalmem_setup_cdev K g) = added K g.devices := by
  unfold globalmem_setup_cdev added
  rw [acquired_loop]
  refine congrArg (List.flatMap · g.devices) (funext fun i => ?_)
  simp only [Effects.acquired_cons, effects, Call.acquires]
  split <;> rfl

theorem acquired_get_ramdisks :
    (effects ω).acquired (get_ramdisks lab K g) = filled lab K g.devices := by
  unfold get_ramdisks filled
  split
  · rw [acquired_loop]
    refine congrArg (List.flatMap · g.devices) (funext fun i => ?_)
    simp only [Effects.acquired_cons, effects, Call.acquires]
    cases K.get_free_pages i <;> rfl
  · rfl

theorem released_setup_cdev : (effects ω).released (globalmem_setup_cdev K g) = [] := by
  unfold globalmem_setup_cdev
  rw [released_loop]
  exact List.flatMap_eq_nil_iff.mpr fun i _ => rfl

theorem released_get_ramdisks : (effects ω).released (get_ramdisks lab K g) = [] := by
  unfold get_ramdisks
  split
  · rw [released_loop]
    exact List.flatMap_eq_nil_iff.mpr fun i _ => rfl
  · rfl

theorem cdev_mem_added {is : List Nat} {i : Nat} :
    .cdev i ∈ added K is ↔ i ∈ is ∧ ¬ K.cdev_add i < 0 := by
  unfold added
  rw [List.mem_flatMap]
  constructor
  · rintro ⟨j, hj, hm⟩
    split at hm
    · cases hm
    next ok =>
      cases List.mem_singleton.mp hm
      exact ⟨hj, ok⟩
  · rintro ⟨hi, ok⟩
    exact ⟨i, hi, by rw [if_neg ok]; exact List.mem_singleton_self _⟩

theorem pages_of_mem_filled {is : List Nat} {r : Resource ω} (h : r ∈ filled lab K is) :
    ∃ p, r = .pages p order := by
  unfold filled at h
  split at h
  · obtain ⟨i, _, hm⟩ := List.mem_flatMap.mp h
    cases hp : K.get_free_pages i with
    | none => rw [hp] at hm; cases hm
    | some p =>
      rw [hp] at hm
      exact ⟨p, List.mem_singleton.mp hm⟩
  · cases h

variable [DecidableEq ω]

/-- What is held after a call of init. -/
def Loaded.held (l : Loaded ω) : List (Resource ω) := (effects ω).holds [] l.calls

theorem holds_load_done {p : ω} {held : List (Resource ω)} (registered : ¬ (g.region K).2 < 0)
    (allocated : K.kmalloc g.N_GLOBALMEM = some p) :
    (effects ω).holds held (load lab K g).calls = held ++
      (.region (g.region K).1 g.N_GLOBALMEM :: .object p ::
        (filled lab K g.devices ++ added K g.devices)) := by
  rw [load_done registered allocated, Effects.holds_of_released_nil]
  · rw [Effects.acquired_append, Effects.acquired_append, acquired_get_ramdisks,
      acquired_setup_cdev]
    have same : ({ g.setMajor K with devp := some p } : Globals ω).devices = g.devices :=
      setMajor_devices
    rw [same]
    simp [effects, Call.acquires, registered, Effects.acquired]
  · rw [Effects.released_append, Effects.released_append, released_get_ramdisks,
      released_setup_cdev]
    rfl

/-- Init is all or nothing: a failed call holds nothing, and after a successful one every device has
been added and, where init does that, got its ramdisk. -/
structure AllOrNothing (lab : Lab) (g : Globals ω) (l : Loaded ω) : Prop where
  nothing : l.rval ≠ 0 → l.held = []
  all : l.rval = 0 → ∀ i ∈ g.devices,
    .cdev i ∈ l.held ∧ (lab.fills = true → l.globals.ramdisk i ≠ none)

/-- No `cdev_add` fails, nor the allocation of a ramdisk. -/
def Works (lab : Lab) (K : Kernel ω) (g : Globals ω) : Prop :=
  ∀ i ∈ g.devices, ¬ K.cdev_add i < 0 ∧ (lab.fills = true → K.get_free_pages i ≠ none)

theorem load_works_iff (lab : Lab) {p : ω} {held : List (Resource ω)} (registered : ¬ (g.region K).2 < 0)
    (allocated : K.kmalloc g.N_GLOBALMEM = some p) (fresh : ∀ i, .cdev i ∉ held) :
    (∀ i ∈ g.devices, .cdev i ∈ (effects ω).holds held (load lab K g).calls ∧
      (lab.fills = true → (load lab K g).globals.ramdisk i ≠ none)) ↔ Works lab K g := by
  refine forall₂_congr fun i hi => and_congr ?_ (imp_congr_right fun fills => ?_)
  · have unpaged : .cdev i ∉ filled lab K g.devices := by
      intro hm
      obtain ⟨p, hp⟩ := pages_of_mem_filled hm
      cases hp
    rw [holds_load_done registered allocated, List.mem_append, or_iff_right (fresh i)]
    simp only [List.mem_cons, List.mem_append, reduceCtorEq, false_or, or_iff_right unpaged,
      cdev_mem_added, hi, true_and]
  · rw [load_ramdisk registered allocated fills hi]

theorem load_all_or_nothing_iff : AllOrNothing lab g (load lab K g) ↔
    (g.region K).2 < 0 ∨ K.kmalloc g.N_GLOBALMEM = none ∨ Works lab K g := by
  by_cases registered : (g.region K).2 < 0
  · refine ⟨fun _ => Or.inl registered, fun _ => ?_⟩
    rw [load_region_failed registered]
    refine ⟨fun _ => ?_, fun done => ?_⟩
    · simp [Loaded.held, Effects.holds, Effects.hold, effects, Call.acquires, Call.releases,
        registered]
    · change (g.region K).2 = 0 at done
      rw [done] at registered
      cases registered
  rw [or_iff_right registered]
  cases allocated : K.kmalloc g.N_GLOBALMEM with
  | none =>
    refine ⟨fun _ => Or.inl rfl, fun _ => ?_⟩
    rw [load_array_failed registered allocated]
    refine ⟨fun _ => ?_, fun done => by cases done⟩
    simp [Loaded.held, Effects.holds, Effects.hold, effects, Call.acquires, Call.releases,
      registered]
  | some p =>
    have done : (load lab K g).rval = 0 := by rw [load_done registered allocated]
    rw [or_iff_right (by simp), ← load_works_iff lab registered allocated fun _ => List.not_mem_nil]
    exact ⟨fun h => h.all done, fun works => ⟨fun failed => absurd done failed, fun _ => works⟩⟩

omit [DecidableEq ω] in
theorem slab_init_created {c : ω} (created : K.kmem_cache_create g.GLOBALMEM_SIZE = some c) :
    globalmem_init .slab K g = { load .slab K { g with kcache := some c } with
      calls := .kmem_cache_create g.GLOBALMEM_SIZE (some c) ::
        (load .slab K { g with kcache := some c }).calls } := by
  simp only [globalmem_init, created]

theorem slab_held_created {c : ω} (created : K.kmem_cache_create g.GLOBALMEM_SIZE = some c) :
    (globalmem_init .slab K g).held =
      (effects ω).holds [.cache c] (load .slab K { g with kcache := some c }).calls := by
  rw [slab_init_created created]
  rfl

/-- In 17_LAB1 the cache stays when the numbers or the array are refused. -/
theorem slab_keeps_cache {c : ω} (created : K.kmem_cache_create g.GLOBALMEM_SIZE = some c)
    (failed : (g.region K).2 < 0 ∨ K.kmalloc g.N_GLOBALMEM = none) :
    (globalmem_init .slab K g).rval ≠ 0 ∧ (globalmem_init .slab K g).held = [.cache c] := by
  have held := slab_held_created created
  by_cases registered : (({ g with kcache := some c } : Globals ω).region K).2 < 0
  · rw [load_region_failed registered] at held
    refine ⟨fun done => ?_, ?_⟩
    · rw [slab_init_created created, load_region_failed registered] at done
      change (g.region K).2 = 0 at done
      change (g.region K).2 < 0 at registered
      rw [done] at registered
      cases registered
    · rw [held]
      simp [Effects.holds, Effects.hold, effects, Call.acquires, Call.releases, registered]
  · have allocated := failed.resolve_left registered
    rw [load_array_failed registered allocated] at held
    refine ⟨fun done => ?_, ?_⟩
    · rw [slab_init_created created, load_array_failed registered allocated] at done
      cases done
    · rw [held]
      simp [Effects.holds, Effects.hold, effects, Call.acquires, Call.releases, registered]

theorem slab_all_or_nothing_iff : AllOrNothing .slab g (globalmem_init .slab K g) ↔
    K.kmem_cache_create g.GLOBALMEM_SIZE = none ∨
      ¬ (g.region K).2 < 0 ∧ K.kmalloc g.N_GLOBALMEM ≠ none ∧ Works .slab K g := by
  cases created : K.kmem_cache_create g.GLOBALMEM_SIZE with
  | none =>
    refine ⟨fun _ => Or.inl rfl, fun _ => ?_⟩
    simp only [globalmem_init, created]
    exact ⟨fun _ => rfl, fun done => by cases done⟩
  | some c =>
    rw [or_iff_right (by simp)]
    by_cases failed : (g.region K).2 < 0 ∨ K.kmalloc g.N_GLOBALMEM = none
    · obtain ⟨nonzero, kept⟩ := slab_keeps_cache created failed
      refine ⟨fun h => ?_, fun h => ?_⟩
      · rw [h.nothing nonzero] at kept
        cases kept
      · obtain refused | refused := failed
        · exact absurd refused h.1
        · exact absurd refused h.2.1
    · obtain ⟨registered, array⟩ := not_or.mp failed
      obtain ⟨p, allocated⟩ := Option.ne_none_iff_exists'.mp array
      have same : ¬ (({ g with kcache := some c } : Globals ω).region K).2 < 0 := registered
      have done : (globalmem_init .slab K g).rval = 0 := by
        rw [slab_init_created created, load_done same allocated]
      have fresh : ∀ i, (.cdev i : Resource ω) ∉ [.cache c] := by
        intro i hi
        cases List.mem_singleton.mp hi
      have works := load_works_iff .slab same allocated fresh
      rw [← slab_held_created created] at works
      constructor
      · intro h
        refine ⟨registered, array, works.mp fun i hi => ⟨(h.all done i hi).1, ?_⟩⟩
        intro fills
        cases fills
      · intro h
        refine ⟨fun nonzero => absurd done nonzero, fun _ i hi => ⟨(works.mpr h.2.2 i hi).1, ?_⟩⟩
        intro fills
        cases fills

/-- Init is all or nothing, whatever fails, exactly in these cases: in 17_LAB1 the cache is refused
or nothing fails; in the others the numbers or the array are refused, or nothing after them fails. -/
theorem init_all_or_nothing_iff (K : Kernel ω) (g : Globals ω) :
    (AllOrNothing .slab g (globalmem_init .slab K g) ↔
      K.kmem_cache_create g.GLOBALMEM_SIZE = none ∨
        ¬ (g.region K).2 < 0 ∧ K.kmalloc g.N_GLOBALMEM ≠ none ∧ Works .slab K g) ∧
    ∀ lab, lab ≠ .slab → (AllOrNothing lab g (globalmem_init lab K g) ↔
      (g.region K).2 < 0 ∨ K.kmalloc g.N_GLOBALMEM = none ∨ Works lab K g) := by
  refine ⟨slab_all_or_nothing_iff, fun lab other => ?_⟩
  cases lab with
  | slab => exact absurd rfl other
  | pages | mmap | sync => exact load_all_or_nothing_iff

end

/-- Every call succeeds but `cdev_add`, or but `register_chrdev_region` in 17_LAB1. In the first
case init reports success for a device that is not there, in the second it fails and keeps the
cache. -/
theorem init_keeps_and_loses :
    let parameters : Globals Unit := ⟨1, 250, 1024, none, none, fun _ => none⟩
    let refusing : Int32 → Int32 → Kernel Unit := fun register add =>
      ⟨fun _ => some (), fun _ _ => register, fun _ => (0, register), fun _ => some (),
        fun _ => some (), fun _ => add, fun _ _ => (by decide : MINOR 0 = 0)⟩
    ((∀ lab, (globalmem_init lab (refusing 0 (-ENOMEM)) parameters).rval = 0 ∧
        .cdev 0 ∉ (globalmem_init lab (refusing 0 (-ENOMEM)) parameters).held) ∧
      (globalmem_init .slab (refusing (-16) 0) parameters).rval = -16 ∧
      (globalmem_init .slab (refusing (-16) 0) parameters).held = [.cache ()]) ∧
    (∀ lab, ¬ AllOrNothing lab parameters (globalmem_init lab (refusing 0 (-ENOMEM)) parameters)) ∧
      ¬ AllOrNothing .slab parameters (globalmem_init .slab (refusing (-16) 0) parameters) := by
  intro parameters refusing
  have lost : ∀ lab, (globalmem_init lab (refusing 0 (-ENOMEM)) parameters).rval = 0 ∧
      .cdev 0 ∉ (globalmem_init lab (refusing 0 (-ENOMEM)) parameters).held := by
    intro lab
    cases lab <;> decide
  have kept : (globalmem_init .slab (refusing (-16) 0) parameters).rval = -16 ∧
      (globalmem_init .slab (refusing (-16) 0) parameters).held = [.cache ()] := by decide
  refine ⟨⟨lost, kept⟩, fun lab h => ?_, fun h => ?_⟩
  · exact (lost lab).2 (h.all (lost lab).1 0 (by decide)).1
  · have nothing := h.nothing (by rw [kept.1]; decide)
    rw [kept.2] at nothing
    cases nothing

end DeviceDriverEx.Globalmem
