import DeviceDriverEx.LabComplete

namespace DeviceDriverEx.LabSemaphore

open LabComplete (isRead callers)

/-- What a call executes next. Whoever is `waiting` is in `down_interruptible`, and has the
semaphore once it is `up`. -/
inductive Pc
  | down
  | waiting (up : Bool)
  | generic
  | up (rval : Int64)
  | returned (rval : Int64)
  | restart
  deriving DecidableEq

namespace Pc

/-- A reader that has got the semaphore. -/
def past : Pc → Bool
  | waiting true | generic | returned _ => true
  | _ => false

/-- A writer that has called `up`. -/
def isReturned : Pc → Bool
  | returned _ => true
  | _ => false

/-- A reader that has come back with `-ERESTARTSYS`. -/
def isRestart : Pc → Bool
  | restart => true
  | _ => false

/-- Where a reader can be, or a writer. -/
def suits (reads : Bool) : Pc → Bool
  | down | waiting _ | restart => reads
  | up _ => !reads
  | generic | returned _ => true

end Pc

/-- The callers of `s_19/lab1_semaphore.c`. `count` and `wait_list` make up the semaphore
`my_sem`. -/
structure State (ι : Type) where
  count : Nat
  wait_list : List ι
  signalled : ι → Bool
  ramdisk : Bytes
  got : ι → Bytes
  pc : ι → Pc

inductive Act (ι : Type)
  | down (i : ι)
  | resume (i : ι)
  | signal (i : ι)
  | generic (i : ι)
  | up (i : ι)

def enter : ExclWait.Call → Pc
  | .read .. => .down
  | .write .. => .generic

section
variable {ι : Type} [DecidableEq ι] (ramdisk_size : UInt64) (call : ι → ExclWait.Call)

omit [DecidableEq ι] in
/-- `DEFINE_SEMAPHORE` leaves the semaphore up. -/
def init (ramdisk : Bytes) : State ι :=
  ⟨1, [], fun _ => false, ramdisk, fun _ _ => 0, fun i => enter (call i)⟩

def State.go (s : State ι) (i : ι) (k : Pc) : State ι := { s with pc := Function.update s.pc i k }

omit [DecidableEq ι] in
def Enabled (s : State ι) : Act ι → Prop
  | .down i => s.pc i = .down
  | .resume i => s.pc i = .waiting true ∨ s.pc i = .waiting false ∧ s.signalled i = true
  | .signal _ => True
  | .generic i => s.pc i = .generic
  | .up i => ∃ rval, s.pc i = .up rval

/-- `up` hands the semaphore to the first of the list; a signal takes its task off the list. -/
def next (s : State ι) : Act ι → State ι
  | .down i =>
    if 0 < s.count then { s.go i .generic with count := s.count - 1 }
    else if s.signalled i then s.go i .restart
    else { s.go i (.waiting false) with wait_list := s.wait_list ++ [i] }
  | .resume i =>
    if s.pc i = .waiting true then s.go i .generic
    else { s.go i .restart with wait_list := s.wait_list.filter (· ≠ i) }
  | .signal i => { s with signalled := Function.update s.signalled i true }
  | .generic i => match call i with
    | .read fault buf lbuf ppos =>
      let r := LabChar.mycdrv_generic_read ramdisk_size fault s.ramdisk buf lbuf ppos
      { s.go i (.returned r.rval) with got := Function.update s.got i r.bytes }
    | .write fault buf lbuf ppos =>
      let r := LabChar.mycdrv_generic_write ramdisk_size fault s.ramdisk buf lbuf ppos
      { s.go i (.up r.rval) with ramdisk := r.bytes }
  | .up i => match s.pc i with
    | .up rval => match s.wait_list with
      | [] => { s.go i (.returned rval) with count := s.count + 1 }
      | j :: rest => { (s.go i (.returned rval)).go j (.waiting true) with wait_list := rest }
    | _ => s

def machine : Machine (State ι) (Act ι) := ⟨Enabled, next ramdisk_size call⟩

end

/-- Nobody has anything left to do but those who wait, and no signal is on its way to them. -/
def Resting {ι : Type} (s : State ι) : Prop :=
  ∀ i, s.pc i = .waiting false ∧ s.signalled i = false ∨ s.pc i = .restart ∨
    ∃ rval, s.pc i = .returned rval

section
variable {ι : Type} [DecidableEq ι] [Fintype ι] {ramdisk_size : UInt64} {call : ι → ExclWait.Call}

omit [DecidableEq ι] in
/-- The readers that have got the semaphore. -/
def passed (call : ι → ExclWait.Call) (s : State ι) : Nat :=
  tally (fun i => isRead (call i)) true Pc.past s.pc

omit [DecidableEq ι] in
/-- The callers of one kind that have returned. -/
def returned (call : ι → ExclWait.Call) (reads : Bool) (s : State ι) : Nat :=
  tally (fun i => isRead (call i)) reads Pc.isReturned s.pc

omit [DecidableEq ι] in
/-- The readers that a signal has sent back. -/
def restarted (call : ι → ExclWait.Call) (s : State ι) : Nat :=
  tally (fun i => isRead (call i)) true Pc.isRestart s.pc

/-- While anyone waits the semaphore is down, and those who wait are the ones on the list. -/
structure Inv (call : ι → ExclWait.Call) (s : State ι) : Prop where
  role : ∀ i, (s.pc i).suits (isRead (call i)) = true
  listed : ∀ i, i ∈ s.wait_list ↔ s.pc i = .waiting false
  once : s.wait_list.Nodup
  down : s.wait_list ≠ [] → s.count = 0
  posted : passed call s + s.count = returned call false s + 1

omit [DecidableEq ι] in
theorem inv_init (ramdisk : Bytes) : Inv call (init call ramdisk) := by
  have start : ∀ i, (enter (call i)).isReturned = false ∧
      (enter (call i)).suits (isRead (call i)) = true ∧
      (isRead (call i) = true → (enter (call i)).past = false) ∧
      enter (call i) ≠ .waiting false := by
    intro i
    cases call i <;> simp [enter, Pc.isReturned, Pc.suits, isRead, Pc.past]
  have none : passed call (init call ramdisk) = 0 :=
    tally_zero fun i reads => (start i).2.2.1 reads
  have none' : returned call false (init call ramdisk) = 0 := tally_zero fun i _ => (start i).1
  refine ⟨fun i => (start i).2.1, fun i => ?_, List.nodup_nil, fun some_ => absurd rfl some_, ?_⟩
  · exact iff_of_false List.not_mem_nil (start i).2.2.2
  · rw [none, none']
    rfl

/-- How one caller's move changes what the invariant counts. -/
theorem counts_go (call : ι → ExclWait.Call) (s : State ι) (i : ι) (k : Pc) :
    passed call (s.go i k) + (decide (isRead (call i) = true) && (s.pc i).past).toNat =
        passed call s + (decide (isRead (call i) = true) && k.past).toNat ∧
      returned call false (s.go i k) +
          (decide (isRead (call i) = false) && (s.pc i).isReturned).toNat =
        returned call false s + (decide (isRead (call i) = false) && k.isReturned).toNat :=
  ⟨tally_update .., tally_update ..⟩

omit [Fintype ι] in
theorem role_go {s : State ι} {i : ι} {k : Pc}
    (role : ∀ j, (s.pc j).suits (isRead (call j)) = true)
    (fits : k.suits (isRead (call i)) = true) :
    ∀ j, ((s.go i k).pc j).suits (isRead (call j)) = true :=
  (Function.forall_update_iff s.pc fun j k => k.suits (isRead (call j)) = true).mpr
    ⟨fits, fun j _ => role j⟩

omit [Fintype ι] in
/-- Those who wait are the same as before if the one who moves neither did nor does. -/
theorem waiting_go {s : State ι} {i : ι} {k : Pc} (before : s.pc i ≠ .waiting false)
    (after : k ≠ .waiting false) (j : ι) :
    (s.go i k).pc j = .waiting false ↔ s.pc j = .waiting false := by
  change Function.update s.pc i k j = _ ↔ _
  by_cases same : j = i
  · rw [same, Function.update_self]
    exact iff_of_false after before
  · rw [Function.update_of_ne same]

/-- A move on neither side of the wait. -/
theorem inv_stay {s t : State ι} {i : ι} {k : Pc} (h : Inv call s)
    (before : s.pc i ≠ .waiting false) (after : k ≠ .waiting false)
    (fits : k.suits (isRead (call i)) = true)
    (past : isRead (call i) = true → k.past = (s.pc i).past)
    (home : isRead (call i) = false → k.isReturned = (s.pc i).isReturned)
    (pc : t.pc = (s.go i k).pc) (count : t.count = s.count) (list : t.wait_list = s.wait_list) :
    Inv call t := by
  obtain ⟨p, r⟩ := counts_go call s i k
  have posted := h.posted
  refine ⟨fun j => ?_, fun j => ?_, list ▸ h.once, ?_, ?_⟩
  · rw [pc]
    exact role_go h.role fits j
  · rw [pc, list, waiting_go before after]
    exact h.listed j
  · rw [list, count]
    exact h.down
  · rw [count, passed, returned, pc]
    change passed call (s.go i k) + s.count = returned call false (s.go i k) + 1
    cases reads : isRead (call i) with
    | true =>
      rw [reads, past reads] at p
      simp only [reads, Bool.true_eq_false, decide_false, Bool.false_and] at r
      omega
    | false =>
      rw [reads, home reads] at r
      simp only [reads, Bool.false_eq_true, decide_false, Bool.false_and] at p
      omega

theorem inv_down {s : State ι} {i : ι} (h : Inv call s) (here : s.pc i = .down) :
    Inv call (next ramdisk_size call s (.down i)) := by
  have reads : isRead (call i) = true := by
    have role := h.role i
    rwa [here] at role
  have posted := h.posted
  have apart : s.pc i ≠ .waiting false := by
    rw [here]
    exact Pc.noConfusion
  by_cases free : 0 < s.count
  · have empty : s.wait_list = [] := by
      by_contra some_
      have down := h.down some_
      omega
    obtain ⟨p, r⟩ := counts_go call s i .generic
    rw [here] at p r
    simp only [reads, Pc.past, Pc.isReturned, decide_true, Bool.and_false, Bool.and_true,
      Bool.toNat_false, Bool.toNat_true] at p r
    simp only [next, if_pos free]
    refine ⟨role_go h.role rfl, fun j => ?_, h.once, fun some_ => absurd empty some_, ?_⟩
    · exact (h.listed j).trans (waiting_go apart Pc.noConfusion j).symm
    · change passed call (s.go i .generic) + (s.count - 1) =
        returned call false (s.go i .generic) + 1
      omega
  · by_cases signalled : s.signalled i = true
    · simp only [next, if_neg free, if_pos signalled]
      exact inv_stay (k := .restart) h apart Pc.noConfusion reads (fun _ => by rw [here]; rfl)
        (fun _ => by rw [here]; rfl) rfl rfl rfl
    · obtain ⟨p, r⟩ := counts_go call s i (.waiting false)
      rw [here] at p r
      simp only [Pc.past, Pc.isReturned, Bool.and_false, Bool.toNat_false] at p r
      simp only [next, if_neg free, if_neg signalled]
      have absent : i ∉ s.wait_list := fun there => apart ((h.listed i).mp there)
      refine ⟨role_go h.role reads, fun j => ?_, ?_, fun _ => by change s.count = 0; omega, ?_⟩
      · change j ∈ s.wait_list ++ [i] ↔ Function.update s.pc i (.waiting false) j = _
        by_cases same : j = i
        · rw [same, Function.update_self]
          exact iff_of_true (List.mem_append_right _ (List.mem_singleton.mpr rfl)) rfl
        · rw [Function.update_of_ne same, ← h.listed j]
          simp [same]
      · exact List.nodup_append.mpr ⟨h.once, List.pairwise_singleton .., fun a there b last same =>
          absent (List.mem_singleton.mp last ▸ same ▸ there)⟩
      · change passed call (s.go i (.waiting false)) + s.count =
          returned call false (s.go i (.waiting false)) + 1
        omega

/-- A waiter that has been handed the semaphore takes it even if a signal has come too. -/
theorem inv_resume {s : State ι} {i : ι} (h : Inv call s)
    (here : s.pc i = .waiting true ∨ s.pc i = .waiting false) :
    Inv call (next ramdisk_size call s (.resume i)) := by
  have reads : isRead (call i) = true := by
    have role := h.role i
    rcases here with here | here <;> rwa [here] at role
  rcases here with here | here
  · simp only [next, if_pos here]
    exact inv_stay (k := .generic) h (by rw [here]; decide) Pc.noConfusion rfl
      (fun _ => by rw [here]; rfl) (fun _ => by rw [here]; rfl) rfl rfl rfl
  · obtain ⟨p, r⟩ := counts_go call s i .restart
    have posted := h.posted
    rw [here] at p r
    simp only [Pc.past, Pc.isReturned, Bool.and_false, Bool.toNat_false] at p r
    simp only [next, here, Pc.waiting.injEq, Bool.false_eq_true, if_false]
    refine ⟨role_go h.role reads, fun j => ?_, h.once.filter _, fun some_ => ?_, ?_⟩
    · change j ∈ s.wait_list.filter _ ↔ Function.update s.pc i .restart j = _
      by_cases same : j = i
      · rw [same, Function.update_self]
        simp
      · rw [Function.update_of_ne same, ← h.listed j]
        simp [same]
    · refine h.down fun empty => some_ ?_
      change s.wait_list.filter _ = []
      rw [empty]
      rfl
    · change passed call (s.go i .restart) + s.count = returned call false (s.go i .restart) + 1
      omega

theorem inv_generic {s : State ι} {i : ι} (h : Inv call s) (here : s.pc i = .generic) :
    Inv call (next ramdisk_size call s (.generic i)) := by
  have apart : s.pc i ≠ .waiting false := by
    rw [here]
    exact Pc.noConfusion
  cases kind : call i with
  | read fault buf lbuf ppos =>
    have reads : isRead (call i) = true := by rw [kind]; rfl
    simp only [next, kind]
    refine inv_stay h apart Pc.noConfusion rfl (fun _ => by rw [here]; rfl) (fun writes => ?_)
      rfl rfl rfl
    rw [reads] at writes
    cases writes
  | write fault buf lbuf ppos =>
    have writes : isRead (call i) = false := by rw [kind]; rfl
    simp only [next, kind]
    refine inv_stay h apart Pc.noConfusion (by rw [writes]; rfl) (fun reads => ?_)
      (fun _ => by rw [here]; rfl) rfl rfl rfl
    rw [writes] at reads
    cases reads

/-- `up` raises the count, or lets one more reader past without doing so. -/
theorem inv_up {s : State ι} {i : ι} (h : Inv call s) {rval : Int64} (here : s.pc i = .up rval) :
    Inv call (next ramdisk_size call s (.up i)) := by
  have writes : isRead (call i) = false := by
    have role := h.role i
    rw [here] at role
    exact Bool.not_eq_true' _ ▸ role
  have apart : s.pc i ≠ .waiting false := by
    rw [here]
    exact Pc.noConfusion
  obtain ⟨p, r⟩ := counts_go call s i (.returned rval)
  have posted := h.posted
  rw [here] at p r
  simp only [writes, Pc.past, Pc.isReturned, Bool.false_eq_true, decide_false, decide_true,
    Bool.and_false, Bool.and_true, Bool.toNat_false, Bool.toNat_true] at p r
  have role := role_go h.role (k := .returned rval) (i := i) rfl
  have others := waiting_go apart (k := .returned rval) Pc.noConfusion
  cases list : s.wait_list with
  | nil =>
    simp only [next, here, list]
    refine ⟨role, fun j => ?_, list ▸ h.once, fun some_ => absurd list some_, ?_⟩
    · exact (h.listed j).trans (others j).symm
    · change passed call (s.go i (.returned rval)) + (s.count + 1) =
        returned call false (s.go i (.returned rval)) + 1
      omega
  | cons j rest =>
    have waits : s.pc j = .waiting false := (h.listed j).mp (by rw [list]; exact List.mem_cons_self)
    have still : (s.go i (.returned rval)).pc j = .waiting false := (others j).mpr waits
    have reads : isRead (call j) = true := by
      have role := h.role j
      rwa [waits] at role
    have down := h.down (by rw [list]; exact List.cons_ne_nil j rest)
    have once := h.once
    rw [list] at once
    obtain ⟨absent, once⟩ := List.nodup_cons.mp once
    obtain ⟨p', r'⟩ := counts_go call (s.go i (.returned rval)) j (.waiting true)
    rw [still] at p' r'
    simp only [reads, Pc.past, Pc.isReturned, decide_true, Bool.and_false, Bool.and_true,
      Bool.toNat_false, Bool.toNat_true] at p' r'
    simp only [next, here, list]
    refine ⟨role_go (s := s.go i (.returned rval)) role reads, fun k => ?_, once, fun _ => down, ?_⟩
    · change k ∈ rest ↔ Function.update (s.go i (.returned rval)).pc j (.waiting true) k = _
      by_cases same : k = j
      · rw [same, Function.update_self]
        exact iff_of_false absent (by decide)
      · rw [Function.update_of_ne same, others k, ← h.listed k, list]
        simp [same]
    · change passed call ((s.go i (.returned rval)).go j (.waiting true)) + s.count =
        returned call false ((s.go i (.returned rval)).go j (.waiting true)) + 1
      omega

theorem inv_next {s : State ι} {a : Act ι} (h : Inv call s) (enabled : Enabled s a) :
    Inv call (next ramdisk_size call s a) := by
  cases a with
  | down i => exact inv_down h enabled
  | resume i => exact inv_resume h (enabled.imp_right And.left)
  | signal i => exact ⟨h.role, h.listed, h.once, h.down, h.posted⟩
  | generic i => exact inv_generic h enabled
  | up i =>
    obtain ⟨rval, here⟩ := enabled
    exact inv_up h here

omit [Fintype ι] in
theorem pc_go {s : State ι} {c : ι} {k : Pc} (below : k ≠ .down)
    (queued : k = .waiting false → s.pc c = .down) (i : ι) :
    (s.go c k).pc i = s.pc i ∨
      (s.go c k).pc i ≠ .down ∧ ((s.go c k).pc i = .waiting false → s.pc i = .down) := by
  change Function.update s.pc c k i = s.pc i ∨ Function.update s.pc c k i ≠ .down ∧
    (Function.update s.pc c k i = .waiting false → s.pc i = .down)
  by_cases same : i = c
  · rw [same, Function.update_self]
    exact Or.inr ⟨below, queued⟩
  · exact Or.inl (Function.update_of_ne same ..)

variable (ramdisk_size call) in
omit [Fintype ι] in
/-- Only `down_interruptible` makes a caller wait, and no caller comes to it twice. -/
theorem pc_next {s : State ι} {a : Act ι} (enabled : Enabled s a) (i : ι) :
    (next ramdisk_size call s a).pc i = s.pc i ∨ (next ramdisk_size call s a).pc i ≠ .down ∧
      ((next ramdisk_size call s a).pc i = .waiting false → s.pc i = .down) := by
  cases a with
  | signal c => exact Or.inl rfl
  | down c =>
    simp only [next]
    split
    next => exact pc_go Pc.noConfusion (fun _ => enabled) i
    next =>
      split
      next => exact pc_go Pc.noConfusion (fun _ => enabled) i
      next => exact pc_go Pc.noConfusion (fun _ => enabled) i
  | resume c =>
    simp only [next]
    split
    next => exact pc_go Pc.noConfusion Pc.noConfusion i
    next => exact pc_go Pc.noConfusion Pc.noConfusion i
  | generic c =>
    cases kind : call c with
    | read fault buf lbuf ppos =>
      simp only [next, kind]
      exact pc_go Pc.noConfusion Pc.noConfusion i
    | write fault buf lbuf ppos =>
      simp only [next, kind]
      exact pc_go Pc.noConfusion Pc.noConfusion i
  | up c =>
    obtain ⟨rval, here⟩ := enabled
    have first := pc_go (s := s) (c := c) (k := .returned rval) Pc.noConfusion Pc.noConfusion i
    cases list : s.wait_list with
    | nil =>
      simp only [next, here, list]
      exact first
    | cons j rest =>
      have second := pc_go (s := s.go c (.returned rval)) (c := j) (k := .waiting true)
        Pc.noConfusion (fun eq => by cases eq) i
      simp only [next, here, list]
      rcases second with same | moved
      · exact same ▸ first
      · refine Or.inr ⟨moved.1, fun waits => ?_⟩
        rcases first with same | ⟨below, _⟩
        · exact same ▸ moved.2 waits
        · exact absurd (moved.2 waits) below

/-- `i` waits ahead of `j`, which has not got the semaphore. -/
structure Ahead (i j : ι) (s : State ι) : Prop where
  listed : ∃ pre post, s.wait_list = pre ++ i :: post ∧ j ∉ pre
  outside : s.pc j = .down ∨ s.pc j = .waiting false ∨ s.pc j = .restart

omit [Fintype ι] in
theorem Ahead.go {i j c : ι} {k : Pc} {s t : State ι} (h : Ahead i j s) (other : j ≠ c)
    (pc : t.pc = (s.go c k).pc)
    (listed : ∃ pre post, t.wait_list = pre ++ i :: post ∧ j ∉ pre) : Ahead i j t := by
  refine ⟨listed, ?_⟩
  have same : t.pc j = s.pc j := by
    rw [pc]
    exact Function.update_of_ne other ..
  rw [same]
  exact h.outside

/-- While `i` waits on, nothing lets `j` past. -/
theorem Ahead.next {i j : ι} {s : State ι} {a : Act ι} (h : Ahead i j s) (inv : Inv call s)
    (enabled : Enabled s a) (still : (next ramdisk_size call s a).pc i = .waiting false) :
    Ahead i j (next ramdisk_size call s a) := by
  obtain ⟨pre, post, list, before⟩ := h.listed
  have waits : s.pc i = .waiting false := (inv.listed i).mp (by rw [list]; simp)
  have down : ¬ 0 < s.count := by
    have down := inv.down (by rw [list]; simp)
    omega
  have outside : ∀ {k}, s.pc j = k → k = .down ∨ k = .waiting false ∨ k = .restart := by
    rintro k rfl
    exact h.outside
  cases a with
  | signal c => exact ⟨h.listed, h.outside⟩
  | generic c =>
    have other : j ≠ c := by
      rintro rfl
      simpa using outside enabled
    cases kind : call c with
    | read fault buf lbuf ppos =>
      simp only [LabSemaphore.next, kind]
      exact h.go other rfl h.listed
    | write fault buf lbuf ppos =>
      simp only [LabSemaphore.next, kind]
      exact h.go other rfl h.listed
  | down c =>
    simp only [LabSemaphore.next, if_neg down]
    split
    next =>
      by_cases other : j = c
      · exact ⟨h.listed, Or.inr (Or.inr (by rw [other]; exact Function.update_self ..))⟩
      · exact h.go other rfl h.listed
    next =>
      have listed : ∃ pre post, s.wait_list ++ [c] = pre ++ i :: post ∧ j ∉ pre :=
        ⟨pre, post ++ [c], by rw [list]; simp, before⟩
      by_cases other : j = c
      · exact ⟨listed, Or.inr (Or.inl (by rw [other]; exact Function.update_self ..))⟩
      · exact h.go other rfl listed
  | resume c =>
    by_cases up : s.pc c = .waiting true
    · have other : j ≠ c := by
        rintro rfl
        simpa using outside up
      simp only [LabSemaphore.next, if_pos up]
      exact h.go other rfl h.listed
    · simp only [LabSemaphore.next, if_neg up] at still ⊢
      have differs : i ≠ c := by
        rintro rfl
        exact Pc.noConfusion ((Function.update_self ..).symm.trans still)
      have listed : ∃ pre post, s.wait_list.filter (· ≠ c) = pre ++ i :: post ∧ j ∉ pre :=
        ⟨pre.filter (· ≠ c), post.filter (· ≠ c), by rw [list]; simp [differs],
          fun there => before (List.mem_filter.mp there).1⟩
      by_cases other : j = c
      · exact ⟨listed, Or.inr (Or.inr (by rw [other]; exact Function.update_self ..))⟩
      · exact h.go other rfl listed
  | up c =>
    obtain ⟨rval, here⟩ := enabled
    have other : j ≠ c := by
      rintro rfl
      simpa using outside here
    cases pre with
    | nil =>
      simp only [LabSemaphore.next, here, list, List.nil_append] at still
      have handed : Function.update (s.go c (.returned rval)).pc i (.waiting true) i =
        .waiting false := still
      rw [Function.update_self] at handed
      cases handed
    | cons p pre =>
      simp only [LabSemaphore.next, here, list, List.cons_append]
      have second : j ≠ p := fun same => before (same ▸ List.mem_cons_self)
      have moved : Ahead i j (s.go c (.returned rval)) := h.go other rfl h.listed
      exact moved.go second rfl ⟨pre, post, rfl, fun there => before (List.mem_cons_of_mem _ there)⟩

/-- Whoever waits is not overtaken by a reader that comes later, signals and all. -/
theorem first_come_first_served {ramdisk : Bytes} {as bs : List (Act ι)} {s t : State ι} {i j : ι}
    (h : Run (machine ramdisk_size call) (init call ramdisk) as s) (waits : s.pc i = .waiting false)
    (comes : s.pc j = .down) (h' : Run (machine ramdisk_size call) s bs t)
    (still : t.pc i = .waiting false) : (t.pc j).past = false := by
  have inv : Inv call s := run_invariant (inv_init ramdisk) (fun _ _ => inv_next) h
  have start : Ahead i j s := by
    obtain ⟨pre, post, list⟩ := List.append_of_mem ((inv.listed i).mpr waits)
    refine ⟨⟨pre, post, list, fun there => ?_⟩, Or.inl comes⟩
    have listed := (inv.listed j).mp (by rw [list]; exact List.mem_append_left _ there)
    rw [comes] at listed
    cases listed
  have kept : Inv call t ∧ t.pc i ≠ .down ∧ (t.pc i = .waiting false → Ahead i j t) := by
    refine run_invariant (I := fun u => Inv call u ∧ u.pc i ≠ .down ∧
      (u.pc i = .waiting false → Ahead i j u)) ⟨inv, by rw [waits]; decide, fun _ => start⟩ ?_ h'
    rintro u a ⟨inv, entered, ahead⟩ enabled
    refine ⟨inv_next inv enabled, ?_, fun waits => ?_⟩
    · rcases pc_next ramdisk_size call enabled i with same | ⟨below, _⟩
      · exact same ▸ entered
      · exact below
    · rcases pc_next ramdisk_size call enabled i with same | ⟨_, from_⟩
      · exact (ahead (same ▸ waits)).next inv enabled waits
      · exact absurd (from_ waits) entered
  rcases (kept.2.2 still).outside with there | there | there <;> rw [there] <;> rfl

/-- Of two readers that wait the later one is sent back by a signal, and the other waits on. -/
theorem first_come_first_served_two :
    let call : Fin 4 → ExclWait.Call := fun i =>
      if i = 3 then .write none (fun _ => 7) 4 0 else .read none (fun _ => 0) 4 0
    let before : List (Act (Fin 4)) := [.down 0, .down 1]
    let after : List (Act (Fin 4)) := [.down 2, .generic 3, .generic 0, .signal 2, .resume 2]
    let s := (machine 0x10000 call).replay (init call fun _ => 0) before
    (((machine 0x10000 call).replay s after).pc 2).past = false := by
  intro call before after s
  have run : Run (machine 0x10000 call) (init call fun _ => 0) before s :=
    run_of_admits ⟨rfl, rfl, trivial⟩
  have run' : Run (machine 0x10000 call) s after ((machine 0x10000 call).replay s after) :=
    run_of_admits ⟨rfl, rfl, rfl, trivial, Or.inr ⟨rfl, rfl⟩, trivial⟩
  exact first_come_first_served (i := 1) run rfl rfl run' rfl

end

end DeviceDriverEx.LabSemaphore
