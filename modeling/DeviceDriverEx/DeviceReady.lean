import DeviceDriverEx.MKtimerLinks
import DeviceDriverEx.MKtimerOrder
import DeviceDriverEx.MiscInit
import DeviceDriverEx.Workqueue

namespace DeviceDriverEx.MKtimer

section
variable {ι : Type} [DecidableEq ι]

/-- `MKtimer_init` and the calls of `MKtimer_write`. -/
def loadingList (HZ : Nat) : Machine (Loading (Device ι)) (LoadAct (Act ι)) :=
  loading (linkedMachine HZ) initList

instance (HZ : Nat) (s : Loading (Device ι)) (a : LoadAct (Act ι)) :
    Decidable ((loadingList HZ).Enabled s a) :=
  inferInstanceAs (Decidable ((loading (linkedMachine HZ) initList).Enabled s a))

def Act.inserts : Act ι → Bool
  | .list_add_tail _ => true
  | _ => false

def HeadReady (d : Device ι) : Prop := d.nodes.prev none ≠ none

def OnList (d : Device ι) (i : ι) : Prop := ∃ elems, Ring d.nodes none elems ∧ some i ∈ elems

/-- The writers of an initialised device keep the order of their entries. -/
def CallsInOrder (s : Loading (Device ι)) : LoadAct (Act ι) → Prop
  | .call a => InOrder s.device.driver a
  | _ => True

instance (s : Loading (Device ι)) : ∀ a, Decidable (CallsInOrder s a)
  | .call a => inferInstanceAs (Decidable (InOrder s.device.driver a))
  | .misc_register _ | .initialise => isTrue trivial

variable {HZ jiffies : Nat} {as : List (LoadAct (Act ι))} {s : Loading (Device ι)}

/-- In front of the initialisation a call goes wrong or leaves the list untouched. -/
theorem fresh_next {d : Device ι} {a : Act ι} (h : Fresh d) (enabled : Enabled d.driver a) :
    ((linkedMachine HZ).next d a).oops = true ∨ Fresh ((linkedMachine HZ).next d a) := by
  by_cases inserts : ∃ i, a = .list_add_tail i
  · obtain ⟨i, rfl⟩ := inserts
    exact Or.inl (fresh_insert h i)
  · exact Or.inr (fresh_step h enabled fun i same => inserts ⟨i, same⟩)

omit [DecidableEq ι] in
theorem Fresh.not_headReady {d : Device ι} (h : Fresh d) : ¬ HeadReady d := by
  intro ready
  rw [HeadReady, Nodes.prev, h.null] at ready
  exact ready rfl

omit [DecidableEq ι] in
theorem Linked.headReady {d : Device ι} (h : Linked d) : HeadReady d := by
  obtain ⟨last, link⟩ := h.ring.linked.prev_end
  rw [HeadReady, link]
  exact Option.some_ne_none last

/-- An insertion finds a null pointer exactly if it comes before `INIT_LIST_HEAD`. -/
theorem finds_head_iff (h : Run (loadingList HZ) (unregistered (loaded jiffies)) as s) :
    Meets (loadingList HZ) (Finds Act.inserts HeadReady) (unregistered (loaded jiffies)) as ↔
      Meets (loadingList HZ) (AfterInit Act.inserts) (unregistered (loaded jiffies)) as := by
  have sound {d : Device ι} {a : Act ι} {R : Prop} (h : d.oops = true ∨ R)
      (enabled : (linkedMachine HZ).Enabled d a) : R :=
    h.resolve_left (by rw [enabled.1]; decide)
  refine finds_iff (P := fun d => d.oops = true ∨ Fresh d) (Q := fun d => d.oops = true ∨ Linked d)
    (Or.inr (fresh_loaded jiffies)) (fun d a inv enabled => ?_) (fun d inv => ?_)
    (fun d a inv enabled => ?_) (fun d a inv enabled => ?_) (fun d a inv enabled => ?_) h
  · exact fresh_next (sound inv enabled) enabled.2
  · exact inv.imp_right linked_init
  · exact Or.inr (linked_step (sound inv enabled) enabled.2)
  · exact (sound inv enabled).not_headReady
  · exact (sound inv enabled).headReady

/-- While no insertion comes before `INIT_LIST_HEAD` nothing goes wrong. -/
theorem loading_linked (h : Run (loadingList HZ) (unregistered (loaded jiffies)) as s)
    (ok : Meets (loadingList HZ) (AfterInit Act.inserts) (unregistered (loaded jiffies)) as) :
    (s.init ≠ .ready → Fresh s.device) ∧ (s.init = .ready → Linked s.device) := by
  refine loading_run (fresh_loaded jiffies) (fun d a inv enabled other => ?_)
    (fun d inv => linked_init inv) (fun d a inv enabled => linked_step inv enabled.2) h ok
  refine fresh_step inv enabled.2 fun i same => ?_
  rw [same] at other
  cases other

theorem loading_sound (h : Run (loadingList HZ) (unregistered (loaded jiffies)) as s)
    (ok : Meets (loadingList HZ) (AfterInit Act.inserts) (unregistered (loaded jiffies)) as) :
    s.device.oops = false := by
  obtain ⟨fresh, linked⟩ := loading_linked h ok
  by_cases ready : s.init = .ready
  · exact (linked ready).sound
  · exact (fresh ready).sound

/-- The entries keep their order through the initialisation. -/
theorem loading_ordered (h : Run (loadingList HZ) (unregistered (loaded jiffies)) as s)
    (order : Meets (loadingList HZ) CallsInOrder (unregistered (loaded jiffies)) as) :
    ∃ rest, Inv s.device.driver rest := by
  refine run_invariant_of_meets (I := fun s => ∃ rest, Inv s.device.driver rest)
    ⟨[], inv_init jiffies⟩ (fun s a inv enabled ok => ?_) h order
  cases a with
  | misc_register rval =>
    dsimp only [loadingList, loading]
    split <;> exact inv
  | initialise => exact inv
  | call a =>
    obtain ⟨_, enabled⟩ := enabled
    dsimp only [loadingList, loading, linkedMachine]
    split
    · exact inv
    · exact inv_next inv.choose_spec enabled.2 ok

omit [DecidableEq ι] in
theorem Linked.onList {d : Device ι} {i : ι} (h : Linked d) (listed : i ∈ d.driver.head) :
    OnList d i :=
  ⟨_, h.ring, List.mem_map_of_mem listed⟩

end

end DeviceDriverEx.MKtimer

namespace DeviceDriverEx.Workqueue

/-- The driver of 20_LAB1_wq with its work item, whose function is null in a module just loaded. -/
structure Device (ι : Type) where
  driver : State ι
  func : Bool

section
variable {ι : Type} [DecidableEq ι]

def workMachine (call : ι → Write) : Machine (Device ι) (Act ι) where
  Enabled d a := Enabled d.driver a
  next d a := { d with driver := next call d.driver a }

instance (call : ι → Write) (d : Device ι) (a : Act ι) :
    Decidable ((workMachine call).Enabled d a) :=
  inferInstanceAs (Decidable (Enabled d.driver a))

omit [DecidableEq ι] in
/-- `INIT_WORK(&mydev.work, wq_func)`, which forgets that the item is queued. -/
def INIT_WORK (d : Device ι) : Device ι := ⟨{ d.driver with pending := false }, true⟩

/-- `mydev_init` and the calls of `mydev_write`. -/
def loadingWork (call : ι → Write) : Machine (Loading (Device ι)) (LoadAct (Act ι)) :=
  loading (workMachine call) INIT_WORK

instance (call : ι → Write) (s : Loading (Device ι)) (a : LoadAct (Act ι)) :
    Decidable ((loadingWork call).Enabled s a) :=
  inferInstanceAs (Decidable ((loading (workMachine call) INIT_WORK).Enabled s a))

def Act.schedules : Act ι → Bool
  | .schedule_work _ => true
  | _ => false

omit [DecidableEq ι] in
def loaded (buf : Bytes) : Device ι := ⟨init buf, false⟩

theorem finds_work_iff {call : ι → Write} {buf : Bytes} {as : List (LoadAct (Act ι))}
    {s : Loading (Device ι)} (h : Run (loadingWork call) (unregistered (loaded buf)) as s) :
    Meets (loadingWork call) (Finds Act.schedules fun d => d.func = true)
        (unregistered (loaded buf)) as ↔
      Meets (loadingWork call) (AfterInit Act.schedules) (unregistered (loaded buf)) as := by
  refine finds_iff (P := fun d => d.func = false) (Q := fun d => d.func = true) rfl
    (fun d a null _ => ?_) (fun d _ => rfl) (fun d a set _ => ?_) (fun d a null _ set => ?_)
    (fun d a set _ => set) h
  · exact null
  · exact set
  · cases null.symm.trans set

end

end DeviceDriverEx.Workqueue

namespace DeviceDriverEx

section
variable {ι κ : Type} [DecidableEq ι] [DecidableEq κ]

/-- No insertion into the list comes before `INIT_LIST_HEAD`. -/
def ListInitialised (HZ jiffies : Nat) (as : List (LoadAct (MKtimer.Act ι))) : Prop :=
  Meets (MKtimer.loadingList HZ) (AfterInit MKtimer.Act.inserts)
    (unregistered (MKtimer.loaded jiffies)) as

/-- The device is registered before its list or its work item is ready. An insertion into a list
head that is not initialised, or a work item scheduled that is not, is a step that comes before
`INIT_LIST_HEAD` or `INIT_WORK`. Where no insertion does, no null pointer is followed and what a
write that returned has inserted stays until a timer unlinks it; which is its own timer while the
writers keep the order of their entries. -/
theorem ready_before_use_iff {HZ jiffies : Nat} {call : κ → Workqueue.Write} {buf : Bytes}
    {as : List (LoadAct (MKtimer.Act ι))} {s : Loading (MKtimer.Device ι)}
    {bs : List (LoadAct (Workqueue.Act κ))} {t : Loading (Workqueue.Device κ)}
    (list : Run (MKtimer.loadingList HZ) (unregistered (MKtimer.loaded jiffies)) as s)
    (work : Run (Workqueue.loadingWork call) (unregistered (Workqueue.loaded buf)) bs t) :
    (Meets (MKtimer.loadingList HZ) (Finds MKtimer.Act.inserts MKtimer.HeadReady)
      (unregistered (MKtimer.loaded jiffies)) as ↔ ListInitialised HZ jiffies as) ∧
    (ListInitialised HZ jiffies as → s.device.oops = false ∧ (s.init = .ready → ∀ i,
      s.device.driver.pc i = .returned →
        MKtimer.OnList s.device i ∨ some i ∈ s.device.driver.log.map Prod.snd)) ∧
    (ListInitialised HZ jiffies as → Meets (MKtimer.loadingList HZ) MKtimer.CallsInOrder
      (unregistered (MKtimer.loaded jiffies)) as → s.init = .ready → ∀ i,
        s.device.driver.pc i = .returned → i ∉ s.device.driver.fired →
          MKtimer.OnList s.device i) ∧
    (Meets (Workqueue.loadingWork call) (Finds Workqueue.Act.schedules fun d => d.func = true)
        (unregistered (Workqueue.loaded buf)) bs ↔
      Meets (Workqueue.loadingWork call) (AfterInit Workqueue.Act.schedules)
        (unregistered (Workqueue.loaded buf)) bs) := by
  refine ⟨MKtimer.finds_head_iff list, fun ok => ⟨MKtimer.loading_sound list ok, ?_⟩, ?_,
    Workqueue.finds_work_iff work⟩
  · intro ready i returned
    have linked := (MKtimer.loading_linked list ok).2 ready
    obtain ⟨_, outstanding⟩ := linked.outstanding
    refine or_iff_not_imp_right.mpr fun kept => linked.onList ?_
    exact (outstanding.listed i).mpr ⟨by rw [returned]; rfl, kept⟩
  · intro ok order ready i returned waits
    have linked := (MKtimer.loading_linked list ok).2 ready
    obtain ⟨_, inv⟩ := MKtimer.loading_ordered list order
    exact linked.onList ((inv.listed i).mpr ⟨by rw [returned]; rfl, waits⟩)

end

/-- Both devices are first written when they are initialised. -/
theorem ready_before_use_iff_later :
    let as : List (LoadAct (MKtimer.Act (Fin 1))) := [.misc_register 0, .initialise,
      .call (.kzalloc 0), .call (.list_add_tail 0), .call (.add_timer 0)]
    MKtimer.OnList
      ((MKtimer.loadingList 100).replay (unregistered (MKtimer.loaded 0)) as).device 0 := by
  intro as
  let call : Fin 1 → Workqueue.Write := fun _ => ⟨fun _ => 0, 1, none⟩
  let bs : List (LoadAct (Workqueue.Act (Fin 1))) := [.misc_register 0, .initialise,
    .call (.copy_from_user 0), .call (.schedule_work 0)]
  have list : Run (MKtimer.loadingList 100) (unregistered (MKtimer.loaded 0)) as _ :=
    run_of_admits (by decide)
  have work : Run (Workqueue.loadingWork call) (unregistered (Workqueue.loaded fun _ => 0)) bs _ :=
    run_of_admits (by decide)
  exact (ready_before_use_iff list work).2.2.1 (meets_of_replay (by decide))
    (meets_of_replay (by decide)) (by decide) 0 (by decide) (by decide)

/-- A write between the two steps follows a null pointer; one that schedules the work item returns
and the item is forgotten. -/
theorem used_before_ready :
    let as : List (LoadAct (MKtimer.Act (Fin 1))) :=
      [.misc_register 0, .call (.kzalloc 0), .call (.list_add_tail 0)]
    let call : Fin 1 → Workqueue.Write := fun _ => ⟨fun _ => 0, 1, none⟩
    let bs : List (LoadAct (Workqueue.Act (Fin 1))) :=
      [.misc_register 0, .call (.copy_from_user 0), .call (.schedule_work 0), .initialise]
    (∃ s, Run (MKtimer.loadingList 100) (unregistered (MKtimer.loaded 0)) as s ∧
      s.device.oops = true) ∧
    ¬ Meets (MKtimer.loadingList 100) (Finds MKtimer.Act.inserts MKtimer.HeadReady)
      (unregistered (MKtimer.loaded 0)) as ∧
    (∃ t, Run (Workqueue.loadingWork call) (unregistered (Workqueue.loaded fun _ => 0)) bs t ∧
      t.device.driver.pc 0 = .returned ∧ t.device.driver.pending = false) ∧
    ¬ Meets (Workqueue.loadingWork call) (Finds Workqueue.Act.schedules fun d => d.func = true)
      (unregistered (Workqueue.loaded fun _ => 0)) bs := by
  intro as call bs
  refine ⟨⟨_, run_of_admits (by decide), by decide⟩, fun ready => ?_,
    ⟨_, run_of_admits (by decide), by decide, by decide⟩, fun ready => ?_⟩
  · have found := ready [.misc_register 0, .call (.kzalloc 0)] _ [] _ rfl
      (run_of_admits (by decide)) rfl
    exact found rfl
  · have found := ready [.misc_register 0, .call (.copy_from_user 0)] _ [.initialise] _ rfl
      (run_of_admits (by decide)) rfl
    cases found

end DeviceDriverEx
