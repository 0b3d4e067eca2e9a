import DeviceDriverEx.ListHead
import DeviceDriverEx.MKtimerOutstanding

namespace DeviceDriverEx.MKtimer

/-- The driver of 11_LAB2 with the memory behind its list: `none` is `MKtimer.head`, which is zero
when the module is loaded, and `driver.head` is what the list is meant to hold. `oops` says that a
null or a freed pointer has been followed; no step comes behind that. -/
structure Device (ι : Type) where
  nodes : Nodes (Option ι)
  driver : State ι
  oops : Bool

section
variable {ι : Type} [DecidableEq ι]

omit [DecidableEq ι] in
/-- The memory of a module just loaded. -/
def zeroed : Nodes (Option ι)
  | none => some ⟨none, none⟩
  | some _ => none

omit [DecidableEq ι] in
def loaded (jiffies : Nat) : Device ι := ⟨zeroed, init jiffies, false⟩

/-- What a step does to the links. `timer_func` unlinks `MKtimer.head.next` and frees it. -/
def links (h : Nodes (Option ι)) : Act ι → Option (Nodes (Option ι))
  | .kzalloc i => some (h.kzalloc (some i))
  | .list_add_tail i => h.list_add_tail (some i) none
  | .timer_func => do
    let first ← h.next none
    let h ← h.list_del first
    h.kfree first
  | .add_timer _ | .tick | .expire => some h

def linkedMachine (HZ : Nat) : Machine (Device ι) (Act ι) where
  Enabled d a := d.oops = false ∧ Enabled d.driver a
  next d a :=
    match links d.nodes a with
    | none => { d with oops := true }
    | some nodes => { d with nodes := nodes, driver := next HZ d.driver a }

instance (HZ : Nat) (d : Device ι) (a : Act ι) : Decidable ((linkedMachine HZ).Enabled d a) :=
  inferInstanceAs (Decidable (d.oops = false ∧ Enabled d.driver a))

/-- An entry is in memory from its `kzalloc` until it is put on the list. -/
def Allocated (nodes : Nodes (Option ι)) (s : State ι) : Prop :=
  ∀ i, s.pc i = .list_add_tail → nodes (some i) ≠ none

/-- The list has not been initialised. -/
structure Fresh (d : Device ι) : Prop where
  sound : d.oops = false
  null : d.nodes none = some ⟨none, none⟩
  none_listed : d.driver.head = []
  outstanding : ∃ waiting, Outstanding d.driver waiting
  allocated : Allocated d.nodes d.driver

/-- The links hold the list. -/
structure Linked (d : Device ι) : Prop where
  sound : d.oops = false
  ring : Ring d.nodes none (d.driver.head.map some)
  outstanding : ∃ waiting, Outstanding d.driver waiting
  allocated : Allocated d.nodes d.driver

variable {HZ : Nat} {d : Device ι} {a : Act ι} {i : ι}

theorem next_some {nodes : Nodes (Option ι)} (h : links d.nodes a = some nodes) :
    (linkedMachine HZ).next d a = { d with nodes := nodes, driver := next HZ d.driver a } := by
  simp only [linkedMachine, h]

theorem next_none (h : links d.nodes a = none) :
    (linkedMachine HZ).next d a = { d with oops := true } := by
  simp only [linkedMachine, h]

/-- Only its own `kzalloc` brings a call in front of its `list_add_tail`. -/
theorem waited {s : State ι} (other : a ≠ .kzalloc i)
    (waits : (next HZ s a).pc i = .list_add_tail) : s.pc i = .list_add_tail := by
  have moved {j : ι} {pc : Pc} (new : pc ≠ .list_add_tail)
      (h : Function.update s.pc j pc i = .list_add_tail) : s.pc i = .list_add_tail := by
    by_cases hij : i = j
    · rw [hij, Function.update_self] at h
      exact absurd h new
    · rwa [Function.update_of_ne hij] at h
  cases a with
  | kzalloc j =>
    have hij : i ≠ j := by
      rintro rfl
      exact other rfl
    exact (Function.update_of_ne hij ..).symm.trans waits
  | list_add_tail j => exact moved (by decide) waits
  | add_timer j => exact moved (by decide) waits
  | tick => exact waits
  | expire => exact waits
  | timer_func =>
    simp only [next] at waits
    split at waits <;> exact waits

/-- A step that allocates nothing keeps in memory what waits to be put on the list. -/
theorem Allocated.next {nodes nodes' : Nodes (Option ι)} {s : State ι} (h : Allocated nodes s)
    (other : ∀ i, a ≠ .kzalloc i)
    (here : ∀ i, s.pc i = .list_add_tail → nodes (some i) ≠ none → nodes' (some i) ≠ none) :
    Allocated nodes' (MKtimer.next HZ s a) := by
  intro i waits
  have before := waited (other i) waits
  exact here i before (h i before)

theorem Allocated.kzalloc {nodes : Nodes (Option ι)} {s : State ι} (h : Allocated nodes s) (i : ι) :
    Allocated (nodes.kzalloc (some i)) (MKtimer.next HZ s (.kzalloc i)) := by
  intro j waits
  by_cases hji : j = i
  · rw [hji, Nodes.kzalloc, Function.update_self]
    exact Option.some_ne_none _
  · have apart : (some j : Option ι) ≠ some i := fun same => hji (Option.some.inj same)
    rw [kzalloc_of_ne nodes apart]
    refine h j (waited (fun same => hji ?_) waits)
    cases same
    rfl

omit [DecidableEq ι] in
/-- An entry in front of its `list_add_tail` is not on the list. -/
theorem Outstanding.away {s : State ι} {waiting : List ι} (h : Outstanding s waiting) {pc : Pc}
    (hi : s.pc i = pc) (early : pc.listed = false) : some i ∉ none :: s.head.map some := by
  intro member
  obtain ⟨j, onList, same⟩ := List.mem_map.mp ((List.mem_cons.mp member).resolve_left nofun)
  cases same
  have listed := ((h.listed i).mp onList).1
  rw [hi, early] at listed
  cases listed

omit [DecidableEq ι] in
theorem fresh_loaded (jiffies : Nat) : Fresh (loaded jiffies : Device ι) :=
  ⟨rfl, rfl, rfl, ⟨[], outstanding_init jiffies⟩, fun _ waits => by cases waits⟩

/-- A step that leaves the links and the list as they are. -/
theorem Fresh.idle (h : Fresh d) (enabled : Enabled d.driver a)
    (untouched : links d.nodes a = some d.nodes) (head : (next HZ d.driver a).head = d.driver.head)
    (calm : ∀ i, a ≠ .kzalloc i) : Fresh ((linkedMachine HZ).next d a) := by
  obtain ⟨waiting, outstanding⟩ := h.outstanding
  rw [next_some untouched]
  exact ⟨h.sound, h.null, head.trans h.none_listed, outstanding_next outstanding enabled,
    h.allocated.next calm fun _ _ here => here⟩

/-- Until the list is initialised no step but an insertion goes wrong, and an insertion does. -/
theorem fresh_step (h : Fresh d) (enabled : Enabled d.driver a)
    (other : ∀ i, a ≠ .list_add_tail i) : Fresh ((linkedMachine HZ).next d a) := by
  obtain ⟨waiting, outstanding⟩ := h.outstanding
  cases a with
  | kzalloc i =>
    rw [next_some rfl]
    refine ⟨h.sound, ?_, h.none_listed, outstanding_next outstanding enabled,
      h.allocated.kzalloc i⟩
    exact (kzalloc_of_ne d.nodes (Option.some_ne_none i).symm).trans h.null
  | list_add_tail i => exact absurd rfl (other i)
  | add_timer i => exact h.idle enabled rfl rfl nofun
  | tick => exact h.idle enabled rfl rfl nofun
  | expire => exact h.idle enabled rfl rfl nofun
  | timer_func =>
    obtain ⟨t, running⟩ := Option.ne_none_iff_exists'.mp enabled
    obtain ⟨u, us, head⟩ := outstanding.head_cons running
    cases h.none_listed.symm.trans head

theorem fresh_insert (h : Fresh d) (i : ι) :
    ((linkedMachine HZ).next d (.list_add_tail i)).oops = true := by
  have null : d.nodes.prev none = none := by
    rw [Nodes.prev, h.null]
    rfl
  have fault : links d.nodes (.list_add_tail i) = none := list_add_tail_null null
  rw [next_none fault]

def initList (d : Device ι) : Device ι := { d with nodes := d.nodes.INIT_LIST_HEAD none }

theorem linked_init (h : Fresh d) : Linked (initList d) := by
  refine ⟨h.sound, ?_, h.outstanding, fun i waits => ?_⟩
  · have empty := ring_init d.nodes none
    rw [← List.map_nil (f := some), ← h.none_listed] at empty
    exact empty
  · exact (init_list_head_of_ne d.nodes (Option.some_ne_none i)).trans_ne (h.allocated i waits)

/-- The first entry is unlinked and freed, whoever it belongs to. -/
theorem timer_func_links {elems : List ι} {first : ι} {nodes : Nodes (Option ι)}
    (ring : Ring nodes none ((first :: elems).map some)) :
    ∃ nodes', links nodes .timer_func = some nodes' ∧ Ring nodes' none (elems.map some) ∧
      ∀ i ≠ first, nodes (some i) ≠ none → nodes' (some i) ≠ none := by
  rw [List.map_cons] at ring
  have taken : nodes.next none = some (some first) := ring.linked.1.1
  obtain ⟨nodes₁, del, ring₁, here⟩ := @Ring.del _ nodes (some first) none [] _ _ ring
  have there : nodes₁ (some first) ≠ none := mt (here _).mp (here_of_prev ring.linked.1.2)
  have away : some first ∉ none :: elems.map some := by
    obtain ⟨_, rest⟩ := List.nodup_cons.mp ring.nodup
    intro member
    exact (List.nodup_cons.mp rest).1 ((List.mem_cons.mp member).resolve_left (by simp))
  obtain ⟨nodes₂, free, ring₂, _, others⟩ := ring₁.kfree away there
  refine ⟨nodes₂, ?_, ring₂, fun i hi kept => ?_⟩
  · simp only [links, taken, del, free, Option.bind_eq_bind, Option.bind_some]
  · rw [others (some i) fun same => hi (Option.some.inj same)]
    exact mt (here (some i)).mp kept

theorem Linked.idle (h : Linked d) (enabled : Enabled d.driver a)
    (untouched : links d.nodes a = some d.nodes) (head : (next HZ d.driver a).head = d.driver.head)
    (calm : ∀ i, a ≠ .kzalloc i) : Linked ((linkedMachine HZ).next d a) := by
  obtain ⟨waiting, outstanding⟩ := h.outstanding
  rw [next_some untouched]
  refine ⟨h.sound, ?_, outstanding_next outstanding enabled,
    h.allocated.next calm fun _ _ here => here⟩
  rw [head]
  exact h.ring

theorem linked_step (h : Linked d) (enabled : Enabled d.driver a) :
    Linked ((linkedMachine HZ).next d a) := by
  obtain ⟨waiting, outstanding⟩ := h.outstanding
  have outstanding' := @outstanding_next _ _ HZ _ _ _ outstanding enabled
  cases a with
  | kzalloc i =>
    have away := outstanding.away enabled rfl
    rw [next_some rfl]
    refine ⟨h.sound, h.ring.congr fun y hy => ?_, outstanding', h.allocated.kzalloc i⟩
    exact kzalloc_of_ne d.nodes fun same => away (same ▸ hy)
  | list_add_tail i =>
    have away := outstanding.away enabled rfl
    obtain ⟨nodes, added, ring, here⟩ := h.ring.add_tail away (h.allocated i enabled)
    have links : links d.nodes (.list_add_tail i) = some nodes := added
    rw [next_some links]
    have allocated : Allocated nodes (next HZ d.driver (.list_add_tail i)) :=
      h.allocated.next nofun fun j _ => mt (here (some j)).mp
    refine ⟨h.sound, ?_, outstanding', allocated⟩
    rw [← List.map_singleton, ← List.map_append] at ring
    exact ring
  | add_timer i => exact h.idle enabled rfl rfl nofun
  | tick => exact h.idle enabled rfl rfl nofun
  | expire => exact h.idle enabled rfl rfl nofun
  | timer_func =>
    obtain ⟨t, running⟩ := Option.ne_none_iff_exists'.mp enabled
    obtain ⟨u, us, head⟩ := outstanding.head_cons running
    have ring := h.ring
    rw [head] at ring
    obtain ⟨nodes, freed, ring, others⟩ := timer_func_links ring
    have listed := ((outstanding.listed u).mp (by rw [head]; exact List.mem_cons_self)).1
    rw [next_some freed]
    have allocated : Allocated nodes (next HZ d.driver .timer_func) := by
      refine h.allocated.next nofun fun i waits kept => others i ?_ kept
      rintro rfl
      rw [waits] at listed
      cases listed
    refine ⟨h.sound, ?_, outstanding', allocated⟩
    simp only [next, running, timer_func, head, List.tail_cons]
    exact ring

end

end DeviceDriverEx.MKtimer
