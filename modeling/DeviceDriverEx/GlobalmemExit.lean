import DeviceDriverEx.GlobalmemInit
import Mathlib.Algebra.Group.Nat.Defs

namespace DeviceDriverEx.Globalmem

theorem MKDEV_MAJOR {dev : UInt32} (h : MINOR dev = 0) : MKDEV (MAJOR dev).toInt32 0 = dev := by
  have bits : MINORBITS.toNat % 32 = 20 := by decide
  have mask : MINORMASK.toNat = 2 ^ 20 - 1 := by decide
  have low : dev.toNat % 2 ^ 20 = 0 := by
    have hm := congrArg UInt32.toNat h
    rw [MINOR, UInt32.toNat_and, mask, Nat.and_two_pow_sub_one_eq_mod] at hm
    exact hm
  have high : (MAJOR dev).toNat = dev.toNat / 2 ^ 20 := by
    rw [MAJOR, UInt32.toNat_shiftRight, bits, Nat.shiftRight_eq_div_pow]
  have shifted : MKDEV (MAJOR dev).toInt32 0 = MAJOR dev <<< MINORBITS := by
    have zero : (0 : Int32).toUInt32 = 0 := rfl
    simp [MKDEV, zero]
  have width := dev.toNat_lt
  rw [shifted, ← UInt32.toNat_inj, UInt32.toNat_shiftLeft, bits, Nat.shiftLeft_eq, high]
  omega

section
variable {ω : Type} {K : Kernel ω} {g : Globals ω} {lab : Lab}

/-- After init the major is that of the numbers it registered. -/
theorem region_devno (registered : ¬ (g.region K).2 < 0) :
    (g.region K).1 = MKDEV (g.setMajor K).globalmem_major 0 := by
  by_cases given : g.globalmem_major ≠ 0
  · simp only [Globals.region, Globals.setMajor, if_pos given]
  · simp only [Globals.region, if_neg given] at registered
    simp only [Globals.region, Globals.setMajor, if_neg given]
    exact (MKDEV_MAJOR (K.baseminor _ registered)).symm

/-- No event frees or replaces what init obtained, but for the ramdisks of 17_LAB1. -/
theorem events_kept (es : List (Event ω)) : (g.events lab es).kcache = g.kcache ∧
    (g.events lab es).devp = g.devp ∧ (lab.fills = true → (g.events lab es).ramdisk = g.ramdisk) := by
  induction es generalizing g with
  | nil => exact ⟨rfl, rfl, fun _ => rfl⟩
  | cons e es ih =>
    have rest := ih (g := g.event lab e)
    have first : (g.event lab e).kcache = g.kcache ∧ (g.event lab e).devp = g.devp ∧
        (lab.fills = true → (g.event lab e).ramdisk = g.ramdisk) := by
      cases e with
      | globalmem_open i ramdisk => cases lab <;> exact ⟨rfl, rfl, fun fills => by cases fills <;> rfl⟩
      | _ => exact ⟨rfl, rfl, fun _ => rfl⟩
    exact ⟨rest.1.trans first.1, rest.2.1.trans first.2.1,
      fun fills => (rest.2.2 fills).trans (first.2.2 fills)⟩

/-- The cache of 17_LAB1. -/
def caches (lab : Lab) (g : Globals ω) : List (Resource ω) :=
  if lab = .slab then (g.kcache.map Resource.cache).toList else []

/-- What exit frees of the ramdisks; 18_LAB3 frees pages as if they were from `kmalloc`. -/
def freed (lab : Lab) (g : Globals ω) : List (Resource ω) :=
  match lab with
  | .pages => g.devices.flatMap fun i => ((g.ramdisk i).map (Resource.pages · order)).toList
  | .mmap => g.devices.flatMap fun i => ((g.ramdisk i).map Resource.object).toList
  | _ => []

theorem released_cdev_dels : (effects ω).released (cdev_dels g) = g.devices.map .cdev := by
  unfold cdev_dels
  rw [released_loop, List.map_eq_flatMap]
  rfl

theorem acquired_exit : (effects ω).acquired (globalmem_exit lab g) = [] := by
  have loop : ∀ {f : Nat → List (Call ω)}, (∀ i, (effects ω).acquired (f i) = []) →
      (effects ω).acquired (g.devices.flatMap f) = [] := by
    intro f h
    rw [acquired_loop]
    exact List.flatMap_eq_nil_iff.mpr fun i _ => h i
  have dels : (effects ω).acquired (cdev_dels g) = [] := loop fun _ => rfl
  have pages : (effects ω).acquired
      (g.devices.flatMap fun i => [.devp i, .free_pages (g.ramdisk i) order]) = [] :=
    loop fun _ => rfl
  have objects : (effects ω).acquired
      (g.devices.flatMap fun i => [.devp i, .kfree (g.ramdisk i)]) = [] :=
    loop fun _ => rfl
  cases lab <;>
    simp only [globalmem_exit, Effects.acquired_append, dels, pages, objects, List.nil_append,
      List.append_nil] <;> rfl

theorem devp_mem_exit {i : Nat} (h : .devp i ∈ globalmem_exit lab g) : i ∈ g.devices := by
  have loop : ∀ {c : Nat → Call ω}, (∀ j, c j ≠ .devp i) →
      .devp i ∈ g.devices.flatMap (fun j => [.devp j, c j]) → i ∈ g.devices := by
    intro c other hm
    obtain ⟨j, hj, hm⟩ := List.mem_flatMap.mp hm
    obtain same | same := List.mem_pair.mp hm
    · cases same
      exact hj
    · exact absurd same.symm (other j)
  have dels : .devp i ∈ cdev_dels g → i ∈ g.devices := loop fun _ => by simp
  cases lab with
  | slab | sync =>
    obtain hm | hm := List.mem_append.mp h
    · exact dels hm
    · simp [unregister] at hm
  | pages | mmap =>
    obtain hm | hm := List.mem_append.mp h
    · obtain hm | hm := List.mem_append.mp hm
      · obtain hm | hm := List.mem_append.mp hm
        · exact dels hm
        · simp [unregister] at hm
      · exact loop (fun _ => by simp) hm
    · simp at hm

variable [DecidableEq ω]

theorem released_exit : ((effects ω).released (globalmem_exit lab g)).Perm (caches lab g ++
    (.region (MKDEV g.globalmem_major 0) g.N_GLOBALMEM :: ((g.devp.map Resource.object).toList ++
      (freed lab g ++ g.devices.map .cdev)))) := by
  have loop : ∀ {c : Nat → Call ω}, (effects ω).released
      (g.devices.flatMap fun i => [.devp i, c i]) = g.devices.flatMap fun i => (c i).releases.toList := by
    intro c
    rw [released_loop]
    refine congrArg (List.flatMap · g.devices) (funext fun i => ?_)
    rw [Effects.released_cons, Effects.released_cons]
    exact List.append_nil _
  have region : (effects ω).released [unregister g] =
      [.region (MKDEV g.globalmem_major 0) g.N_GLOBALMEM] := rfl
  have array : (effects ω).released [.kfree g.devp] = (g.devp.map Resource.object).toList := by
    cases g.devp <;> rfl
  refine List.perm_iff_count.mpr fun r => ?_
  cases lab with
  | slab =>
    have released : (effects ω).released (globalmem_exit .slab g) = g.devices.map .cdev ++
        ((g.kcache.map Resource.cache).toList ++ ((g.devp.map Resource.object).toList ++
          [.region (MKDEV g.globalmem_major 0) g.N_GLOBALMEM])) := by
      simp only [globalmem_exit, Effects.released_append, released_cdev_dels, Effects.released_cons]
      rfl
    simp only [released, caches, freed, if_true, List.count_append, List.count_cons, List.count_nil]
    omega
  | pages | mmap =>
    simp only [globalmem_exit, caches, freed, reduceCtorEq, if_false, Effects.released_append,
      released_cdev_dels, loop, region, array, Call.releases, List.count_append, List.count_cons,
      List.count_nil]
    omega
  | sync =>
    have released : (effects ω).released (globalmem_exit .sync g) = g.devices.map .cdev ++
        ((g.devp.map Resource.object).toList ++
          [.region (MKDEV g.globalmem_major 0) g.N_GLOBALMEM]) := by
      simp only [globalmem_exit, Effects.released_append, released_cdev_dels, Effects.released_cons]
      rfl
    simp only [released, caches, freed, reduceCtorEq, if_false, List.count_append, List.count_cons,
      List.count_nil]
    omega

theorem load_spec (done : (load lab K g).rval = 0) :
    ∃ p, (g.region K).1 = MKDEV (load lab K g).globals.globalmem_major 0 ∧
      (load lab K g).globals.devp = some p ∧
      (lab.fills = true → ∀ i ∈ g.devices, (load lab K g).globals.ramdisk i = K.get_free_pages i) ∧
      ∀ held, (effects ω).holds held (load lab K g).calls = held ++
        (.region (g.region K).1 g.N_GLOBALMEM :: .object p ::
          (filled lab K g.devices ++ added K g.devices)) := by
  obtain ⟨p, registered, allocated⟩ := loaded_of_done done
  refine ⟨p, ?_, ?_, fun fills i hi => load_ramdisk registered allocated fills hi,
    fun held => holds_load_done registered allocated⟩
  · rw [region_devno registered, load_done registered allocated]
    unfold Globals.setRamdisks
    split <;> rfl
  · rw [load_done registered allocated]
    unfold Globals.setRamdisks
    split <;> rfl

/-- What a successful init holds, and where it keeps it. -/
theorem init_done (done : (globalmem_init lab K g).rval = 0) :
    ∃ p, (g.region K).1 = MKDEV (globalmem_init lab K g).globals.globalmem_major 0 ∧
      (globalmem_init lab K g).globals.devp = some p ∧
      (lab.fills = true → ∀ i ∈ g.devices,
        (globalmem_init lab K g).globals.ramdisk i = K.get_free_pages i) ∧
      (globalmem_init lab K g).held = caches lab (globalmem_init lab K g).globals ++
        (.region (g.region K).1 g.N_GLOBALMEM :: .object p ::
          (filled lab K g.devices ++ added K g.devices)) := by
  cases lab with
  | pages | mmap | sync =>
    obtain ⟨p, major, devp, ramdisk, held⟩ := load_spec done
    exact ⟨p, major, devp, ramdisk, held []⟩
  | slab =>
    cases created : K.kmem_cache_create g.GLOBALMEM_SIZE with
    | none =>
      simp only [globalmem_init, created] at done
      cases done
    | some c =>
      have init := slab_init_created (g := g) created
      rw [init] at done
      obtain ⟨p, major, devp, _, held⟩ := load_spec done
      have kcache : (globalmem_init .slab K g).globals.kcache = some c := by
        obtain ⟨p, registered, allocated⟩ := loaded_of_done done
        rw [init, load_done registered allocated]
        exact setMajor_kcache
      refine ⟨p, ?_, ?_, fun fills => (by cases fills), ?_⟩
      · rw [init]
        exact major
      · rw [init]
        exact devp
      · rw [slab_held_created created, held, caches, if_pos rfl, kcache]
        rfl

/-- Exit undoes init: it uses only elements of the array that init allocated, it releases each thing
that init holds once, and nothing else. -/
structure Undoes (g : Globals ω) (held : List (Resource ω)) (exit : List (Call ω)) : Prop where
  inside : ∀ i : Nat, .devp i ∈ exit → (i : Int) < g.N_GLOBALMEM.toInt
  matched : (effects ω).Matched held exit
  nothing : (effects ω).holds held exit = []

omit [DecidableEq ω] in
theorem mem_devices {i : Nat} : i ∈ g.devices ↔ (i : Int) < g.N_GLOBALMEM.toInt := by
  unfold Globals.devices
  rw [List.mem_range]
  omega

omit [DecidableEq ω] in
theorem added_all {is : List Nat} (ok : ∀ i ∈ is, ¬ K.cdev_add i < 0) :
    added K is = is.map .cdev := by
  unfold added
  rw [List.map_eq_flatMap]
  exact List.flatMap_congr fun i hi => if_neg (ok i hi)

omit [DecidableEq ω] in
theorem of_mem_caches {r : Resource ω} (h : r ∈ caches lab g) : ∃ c, r = .cache c := by
  unfold caches at h
  split at h
  · obtain ⟨c, _, hc⟩ := Option.map_eq_some_iff.mp (Option.mem_toList.mp h)
    exact ⟨c, hc.symm⟩
  · cases h

omit [DecidableEq ω] in
theorem of_mem_freed {r : Resource ω} (h : r ∈ freed lab g) :
    (lab ≠ .mmap ∧ ∃ p, r = .pages p order) ∨ ∃ p, r = .object p := by
  cases lab with
  | slab | sync => cases h
  | pages =>
    obtain ⟨i, _, hm⟩ := List.mem_flatMap.mp h
    obtain ⟨p, _, hp⟩ := Option.map_eq_some_iff.mp (Option.mem_toList.mp hm)
    exact Or.inl ⟨by decide, p, hp.symm⟩
  | mmap =>
    obtain ⟨i, _, hm⟩ := List.mem_flatMap.mp h
    obtain ⟨p, _, hp⟩ := Option.map_eq_some_iff.mp (Option.mem_toList.mp hm)
    exact Or.inr ⟨p, hp.symm⟩

omit [DecidableEq ω] in
/-- Whatever exit frees of the ramdisks is what init obtained, if in 18_LAB3 that was nothing. -/
theorem freed_filled (ramdisk : lab.fills = true → ∀ i ∈ g.devices, g.ramdisk i = K.get_free_pages i)
    (none_paged : lab = .mmap → ∀ i ∈ g.devices, K.get_free_pages i = none) :
    freed lab g = filled lab K g.devices := by
  cases lab with
  | slab | sync => rfl
  | pages =>
    refine List.flatMap_congr fun i hi => ?_
    rw [ramdisk rfl i hi]
  | mmap =>
    refine List.flatMap_congr fun i hi => ?_
    rw [ramdisk rfl i hi, none_paged rfl i hi]
    rfl

theorem of_mem_released {r : Resource ω} (h : r ∈ (effects ω).released (globalmem_exit lab g)) :
    (∃ c, r = .cache c) ∨ r = .region (MKDEV g.globalmem_major 0) g.N_GLOBALMEM ∨
      (∃ p, r = .object p) ∨ (lab ≠ .mmap ∧ ∃ p, r = .pages p order) ∨ ∃ i, r = .cdev i := by
  have hm := released_exit.mem_iff.mp h
  simp only [List.mem_append, List.mem_cons] at hm
  obtain cache | region | array | ramdisk | cdev := hm
  · exact Or.inl (of_mem_caches cache)
  · exact Or.inr (Or.inl region)
  · obtain ⟨p, _, hp⟩ := Option.map_eq_some_iff.mp (Option.mem_toList.mp array)
    exact Or.inr (Or.inr (Or.inl ⟨p, hp.symm⟩))
  · obtain pages | object := of_mem_freed ramdisk
    · exact Or.inr (Or.inr (Or.inr (Or.inl pages)))
    · exact Or.inr (Or.inr (Or.inl object))
  · obtain ⟨i, _, hi⟩ := List.mem_map.mp cdev
    exact Or.inr (Or.inr (Or.inr (Or.inr ⟨i, hi.symm⟩)))

theorem region_of_released {base : UInt32} {n : Int32}
    (h : .region base n ∈ (effects ω).released (globalmem_exit lab g)) :
    MKDEV g.globalmem_major 0 = base ∧ g.N_GLOBALMEM = n := by
  obtain ⟨_, other⟩ | same | ⟨_, other⟩ | ⟨_, _, other⟩ | ⟨_, other⟩ := of_mem_released h
  · cases other
  · cases same
    exact ⟨rfl, rfl⟩
  · cases other
  · cases other
  · cases other

theorem pages_not_released {q : ω} :
    .pages q order ∉ (effects ω).released (globalmem_exit .mmap g) := by
  intro h
  obtain ⟨_, other⟩ | same | ⟨_, other⟩ | ⟨differs, _⟩ | ⟨_, other⟩ := of_mem_released h
  · cases other
  · cases same
  · cases other
  · exact differs rfl
  · cases other

theorem cdev_released {i : Nat} (hi : i ∈ g.devices) :
    .cdev i ∈ (effects ω).released (globalmem_exit lab g) := by
  refine released_exit.mem_iff.mpr (List.mem_append_right _ (List.mem_cons_of_mem _ ?_))
  exact List.mem_append_right _ (List.mem_append_right _ (List.mem_map_of_mem hi))

omit [DecidableEq ω] in
theorem cdev_held {base : UInt32} {n : Int32} {p : ω} {is : List Nat} {i : Nat}
    (h : .cdev i ∈ caches lab g ++
      (.region base n :: .object p :: (filled lab K is ++ added K is))) : ¬ K.cdev_add i < 0 := by
  simp only [List.mem_append, List.mem_cons, reduceCtorEq, false_or] at h
  obtain cache | paged | ok := h
  · obtain ⟨c, hc⟩ := of_mem_caches cache
    cases hc
  · obtain ⟨q, hq⟩ := pages_of_mem_filled paged
    cases hq
  · exact (cdev_mem_added.mp ok).2

omit [DecidableEq ω] in
theorem pages_mem_filled {is : List Nat} {i : Nat} {q : ω} (fills : lab.fills = true) (hi : i ∈ is)
    (obtained : K.get_free_pages i = some q) : .pages q order ∈ filled lab K is := by
  unfold filled
  rw [if_pos fills]
  refine List.mem_flatMap.mpr ⟨i, hi, ?_⟩
  rw [obtained]
  exact List.mem_singleton_self _

theorem undone_iff {held : List (Resource ω)} {p : ω} {base : UInt32} {n : Int32} {is : List Nat}
    (devices : g.N_GLOBALMEM = n → g.devices = is) (devp : g.devp = some p)
    (ramdisk : lab.fills = true → ∀ i ∈ is, g.ramdisk i = K.get_free_pages i)
    (holds : held = caches lab g ++
      (.region base n :: .object p :: (filled lab K is ++ added K is))) :
    held.Perm ((effects ω).released (globalmem_exit lab g)) ↔
      g.N_GLOBALMEM = n ∧ MKDEV g.globalmem_major 0 = base ∧
      (∀ i ∈ is, ¬ K.cdev_add i < 0) ∧
      (lab = .mmap → ∀ i ∈ is, K.get_free_pages i = none) := by
  constructor
  · intro perm
    have region : .region base n ∈ held := by
      rw [holds]
      exact List.mem_append_right _ List.mem_cons_self
    obtain ⟨major, number⟩ := region_of_released (perm.mem_iff.mp region)
    refine ⟨number, major, fun i hi => ?_, fun mmap i hi => ?_⟩
    · have deleted := @cdev_released ω g lab _ i ((devices number).symm ▸ hi)
      exact cdev_held (holds ▸ perm.mem_iff.mpr deleted)
    · subst mmap
      cases obtained : K.get_free_pages i with
      | none => rfl
      | some q =>
        have paged : .pages q order ∈ held := by
          rw [holds]
          refine List.mem_append_right _ (List.mem_cons_of_mem _ (List.mem_cons_of_mem _ ?_))
          exact List.mem_append_left _ (pages_mem_filled rfl hi obtained)
        exact absurd (perm.mem_iff.mp paged) pages_not_released
  · rintro ⟨number, major, ok, unpaged⟩
    have same := devices number
    have ramdisks : freed lab g = filled lab K is := by
      rw [freed_filled (K := K) (by rw [same]; exact ramdisk) (by rw [same]; exact unpaged), same]
    have released := @released_exit ω g lab _
    rw [devp, ramdisks, same, ← added_all ok, number, major] at released
    rw [holds]
    exact released.symm

/-- Exit undoes a successful init, whatever was done between them, exactly if N_GLOBALMEM has its
value from before init and the major leads to the same device numbers as after it, `cdev_add`
succeeded for every device, and in 18_LAB3 no page was obtained. -/
theorem exit_undoes_init_iff (K : Kernel ω) (g : Globals ω) (lab : Lab) (es : List (Event ω))
    (done : (globalmem_init lab K g).rval = 0) :
    let loaded := globalmem_init lab K g
    let left := loaded.globals.events lab es
    Undoes g loaded.held (globalmem_exit lab left) ↔
      left.N_GLOBALMEM = g.N_GLOBALMEM ∧
      MKDEV left.globalmem_major 0 = MKDEV loaded.globals.globalmem_major 0 ∧
      (∀ i ∈ g.devices, ¬ K.cdev_add i < 0) ∧
      (lab = .mmap → ∀ i ∈ g.devices, K.get_free_pages i = none) := by
  intro loaded left
  obtain ⟨p, major, devp, ramdisk, held⟩ := init_done done
  rw [major] at held
  obtain ⟨kcache, same, kept⟩ := @events_kept ω loaded.globals lab es
  have devices : left.N_GLOBALMEM = g.N_GLOBALMEM → left.devices = g.devices := by
    intro number
    unfold Globals.devices
    rw [number]
  have undone := undone_iff (K := K) devices (same.trans devp)
    (fun fills i hi => (congrFun (kept fills) i).trans (ramdisk fills i hi))
    (held.trans (by unfold caches; rw [show left.kcache = _ from kcache]))
  rw [← undone, ← Effects.undone_iff_perm acquired_exit]
  refine ⟨fun h => ⟨h.matched, h.nothing⟩, fun h => ⟨fun i hi => ?_, h.1, h.2⟩⟩
  rw [Effects.undone_iff_perm acquired_exit, undone] at h
  rw [← mem_devices, ← devices h.1]
  exact devp_mem_exit hi

end

/-- One device, whose parameters are set while it is loaded but have their values back at exit. -/
theorem exit_undoes_init_iff_restored :
    let K : Kernel Unit := ⟨fun _ => some (), fun _ _ => 0, fun _ => (MKDEV 250 0, 0),
      fun _ => some (), fun _ => some (), fun _ => 0, fun _ _ => by decide⟩
    let loaded := globalmem_init .sync K ⟨1, 0, 1024, none, none, fun _ => none⟩
    let left := loaded.globals.events .sync [.N_GLOBALMEM 4, .fileOperation, .N_GLOBALMEM 1]
    Undoes ⟨1, 0, 1024, none, none, fun _ => none⟩ loaded.held (globalmem_exit .sync left) := by
  intro K loaded left
  refine (exit_undoes_init_iff K ⟨1, 0, 1024, none, none, fun _ => none⟩ .sync
    [.N_GLOBALMEM 4, .fileOperation, .N_GLOBALMEM 1] (by decide)).mpr ?_
  refine ⟨by decide, by decide, fun i _ => ?_, fun mmap => by cases mmap⟩
  intro failed
  cases failed

/-- N_GLOBALMEM is set from 1 to 2 while the module is loaded, and exit deletes a `cdev` behind the
array. In 18_LAB3 nothing is set, and the page goes to `kfree`. -/
theorem exit_leaves_array :
    let K : Kernel Nat := ⟨fun _ => some 1, fun _ _ => 0, fun _ => (MKDEV 250 0, 0),
      fun _ => some 2, fun _ => some 3, fun _ => 0, fun _ _ => by decide⟩
    let parameters : Globals Nat := ⟨1, 0, 1024, none, none, fun _ => none⟩
    let exit : Lab → List (Event Nat) → List (Call Nat) := fun lab es =>
      globalmem_exit lab ((globalmem_init lab K parameters).globals.events lab es)
    (∀ lab, (globalmem_init lab K parameters).rval = 0) ∧
    (∀ lab, .devp 1 ∈ exit lab [.N_GLOBALMEM 2] ∧
      ¬ Undoes parameters (globalmem_init lab K parameters).held (exit lab [.N_GLOBALMEM 2])) ∧
    (.pages 3 order ∈ (globalmem_init .mmap K parameters).held ∧ .kfree (some 3) ∈ exit .mmap [] ∧
      ¬ Undoes parameters (globalmem_init .mmap K parameters).held (exit .mmap [])) := by
  intro K parameters exit
  have behind : ∀ lab, .devp 1 ∈ exit lab [.N_GLOBALMEM 2] := by
    intro lab
    cases lab <;> decide
  have obtained : .pages 3 order ∈ (globalmem_init .mmap K parameters).held := by decide
  refine ⟨fun lab => ?_, fun lab => ⟨behind lab, fun h => ?_⟩, obtained, by decide, fun h => ?_⟩
  · cases lab <;> decide
  · have inside := h.inside 1 (behind lab)
    have one : parameters.N_GLOBALMEM.toInt = 1 := by decide
    omega
  · have perm := (Effects.undone_iff_perm acquired_exit).mp ⟨h.matched, h.nothing⟩
    exact pages_not_released (perm.mem_iff.mp obtained)

end DeviceDriverEx.Globalmem
