import DeviceDriverEx.Decimal
import DeviceDriverEx.Globalmem
import DeviceDriverEx.Machine

namespace DeviceDriverEx.ProcSig

def FLAG_PID : Int32 := 1
def FLAG_SIG : Int32 := 2

/-- The variables of 14_LAB4. A task is known by the address of its `task_struct`. -/
structure State (τ : Type) where
  pid : Int32
  sigid : Int32
  task : Option τ

def init {τ : Type} : State τ := ⟨-1, -1, none⟩

/-- `pid_task(find_get_pid(pid), PIDTYPE_PID)` among the live tasks. -/
def pid_task {τ : Type} (tasks : List (τ × Int32)) (pid : Int32) : Option τ :=
  (tasks.find? fun t => t.2 = pid).map Prod.fst

/-- What is printed into `page`, and its length. -/
def read_entry {τ : Type} (s : State τ) (flag : Int32) : List UInt8 × Int32 :=
  let page :=
    if flag = FLAG_SIG then ascii "tx_sig: ".toList ++ decimal s.sigid.toInt ++ [10]
    else if flag = FLAG_PID then ascii "rx_PID: ".toList ++ decimal s.pid.toInt ++ [10]
    else ascii "Something wrong!\n".toList
  (page, Int32.ofNat page.length)

/-- What a write leaves: the variables, the signal it sent and to which task, the value returned,
and the kernel stack from `buf` on. -/
structure Written (τ : Type) where
  state : State τ
  sent : Option (Int32 × τ)
  rval : Int32
  stack : List UInt8

/-- `buffer` are the `count` bytes at the user's address, and `stack` is what the kernel stack
holds from `buf` on. -/
def write_entry {τ : Type} (s : State τ) (tasks : List (τ × Int32)) (flag : Int32)
    (fault : Option Fault) (buffer stack : List UInt8) : Written τ :=
  let n := Int32.ofNat (copied fault buffer.length)
  let buf := copy_to_front fault stack buffer buffer.length
  let val := (simple_strtol buf).toInt32
  if flag = FLAG_SIG then
    -- `if (task) send_sig(sigid, task, 0)`
    ⟨{ s with sigid := val }, s.task.map fun t => (val, t), n, buf⟩
  else if flag = FLAG_PID then
    ⟨{ s with pid := val, task := pid_task tasks val }, none, n, buf⟩
  else ⟨s, none, n, buf⟩

/-- What has happened to the tasks and to `rx_PID`. -/
inductive Event (τ : Type)
  | wrote (pid : Int32)
  | created (a : τ) (pid : Int32)
  | exited (a : τ)

/-- The module among the live tasks; the history is kept newest first. -/
structure System (τ : Type) where
  vars : State τ
  tasks : List (τ × Int32)
  history : List (Event τ)

inductive Act (τ : Type)
  | write (flag : Int32) (fault : Option Fault) (buffer stack : List UInt8)
  | create (a : τ) (pid : Int32)
  | exit (a : τ)

def lastWritten {τ : Type} : List (Event τ) → Option Int32
  | [] => none
  | .wrote pid :: _ => some pid
  | _ :: history => lastWritten history

/-- The task at `a` has not exited since the last write to `rx_PID`, or another one was created
there since, which has the pid `p`. -/
def Current {τ : Type} [DecidableEq τ] (a : τ) (p : Int32) : List (Event τ) → Bool
  | [] => false
  | .wrote _ :: _ => true
  | .created b q :: history => if b = a then q = p else Current a p history
  | .exited b :: history => b ≠ a && Current a p history

section
variable {τ : Type} [DecidableEq τ]

/-- A new task gets an address and a pid that no live task has. -/
def Enabled (s : System τ) : Act τ → Prop
  | .write .. => True
  | .create a pid => ∀ t ∈ s.tasks, t.1 ≠ a ∧ t.2 ≠ pid
  | .exit a => ∃ t ∈ s.tasks, t.1 = a

instance (s : System τ) : ∀ c, Decidable (Enabled s c)
  | .write .. => isTrue trivial
  | .create .. => inferInstanceAs (Decidable (∀ t ∈ s.tasks, _))
  | .exit _ => inferInstanceAs (Decidable (∃ t ∈ s.tasks, _))

def next (s : System τ) : Act τ → System τ
  | .write flag fault buffer stack =>
    { s with
      vars := (write_entry s.vars s.tasks flag fault buffer stack).state
      history := if flag = FLAG_PID then
        .wrote (simple_strtol (copy_to_front fault stack buffer buffer.length)).toInt32 :: s.history else s.history }
  | .create a pid => { s with tasks := (a, pid) :: s.tasks, history := .created a pid :: s.history }
  | .exit a =>
    { s with tasks := s.tasks.filter fun t => t.1 ≠ a, history := .exited a :: s.history }

def machine : Machine (System τ) (Act τ) := ⟨Enabled, next⟩

instance (s : System τ) (c : Act τ) : Decidable (machine.Enabled s c) :=
  inferInstanceAs (Decidable (Enabled s c))

omit [DecidableEq τ] in
/-- The module as it was loaded, among some tasks. -/
def start (tasks : List (τ × Int32)) : System τ := ⟨init, tasks, []⟩

omit [DecidableEq τ] in
/-- A signal that a write sends goes to a live task with the pid last written to `rx_PID`. -/
def Intended (s : System τ) : Act τ → Prop
  | .write flag fault buffer stack =>
    ∀ sig a, (write_entry s.vars s.tasks flag fault buffer stack).sent = some (sig, a) →
      ∃ p, lastWritten s.history = some p ∧ (a, p) ∈ s.tasks
  | .create .. | .exit _ => True

/-- When a signal is to be sent, the task found at the last write to `rx_PID` is current. -/
def FoundIsCurrent (s : System τ) : Act τ → Prop
  | .write flag _ _ _ => flag = FLAG_SIG → ∀ a ∈ s.vars.task, Current a s.vars.pid s.history
  | .create .. | .exit _ => True

instance (s : System τ) : ∀ c, Decidable (FoundIsCurrent s c)
  | .write .. => inferInstanceAs (Decidable (_ → _))
  | .create .. | .exit _ => isTrue trivial

/-- The variables remember the last write to `rx_PID`, and the history tells whether the task that
it found is there with its pid. -/
structure Remembers (s : System τ) : Prop where
  pid : ∀ a ∈ s.vars.task, lastWritten s.history = some s.vars.pid
  found : ∀ a ∈ s.vars.task, Current a s.vars.pid s.history ↔ (a, s.vars.pid) ∈ s.tasks

omit [DecidableEq τ] in
theorem mem_of_pid_task {tasks : List (τ × Int32)} {pid : Int32} {a : τ}
    (h : a ∈ pid_task tasks pid) : (a, pid) ∈ tasks := by
  obtain ⟨t, found, rfl⟩ := Option.map_eq_some_iff.mp h
  have same : t.2 = pid := by simpa using List.find?_some found
  rw [← same]
  exact List.mem_of_find?_eq_some found

omit [DecidableEq τ] in
theorem write_sig (s : State τ) (tasks : List (τ × Int32)) (fault : Option Fault)
    (buffer stack : List UInt8) : write_entry s tasks FLAG_SIG fault buffer stack =
      let val := (simple_strtol (copy_to_front fault stack buffer buffer.length)).toInt32
      ⟨{ s with sigid := val }, s.task.map fun t => (val, t),
        Int32.ofNat (copied fault buffer.length), copy_to_front fault stack buffer buffer.length⟩ := rfl

theorem write_keeps (s : System τ) {flag : Int32} (other : flag ≠ FLAG_PID) (fault : Option Fault)
    (buffer stack : List UInt8) :
    let t := next s (.write flag fault buffer stack)
    t.vars.pid = s.vars.pid ∧ t.vars.task = s.vars.task ∧ t.tasks = s.tasks ∧
      t.history = s.history := by
  have same : (next s (.write flag fault buffer stack)).history = s.history := if_neg other
  by_cases sig : flag = FLAG_SIG
  · subst sig
    exact ⟨rfl, rfl, rfl, same⟩
  · refine ⟨?_, ?_, rfl, same⟩ <;> simp only [next, write_entry, if_neg other, if_neg sig]

theorem remembers_next {s : System τ} {c : Act τ} (h : Remembers s) (enabled : Enabled s c) :
    Remembers (next s c) := by
  cases c with
  | write flag fault buffer stack =>
    by_cases pid : flag = FLAG_PID
    · subst pid
      have history : (next s (.write FLAG_PID fault buffer stack)).history =
          .wrote (simple_strtol (copy_to_front fault stack buffer buffer.length)).toInt32 :: s.history := by simp [next]
      refine ⟨fun a _ => ?_, fun a found => ?_⟩
      · rw [history]
        rfl
      · rw [history, Current]
        exact iff_of_true rfl (mem_of_pid_task found)
    · obtain ⟨same_pid, same_task, same_tasks, same_history⟩ := write_keeps s pid fault buffer stack
      constructor
      · rw [same_pid, same_task, same_history]
        exact h.pid
      · rw [same_pid, same_task, same_tasks, same_history]
        exact h.found
  | create a pid =>
    refine ⟨h.pid, fun b found => ?_⟩
    have old := h.found b found
    by_cases same : a = b
    · subst same
      have absent : (a, s.vars.pid) ∉ s.tasks := fun mem => (enabled _ mem).1 rfl
      simp [next, Current, absent, eq_comm]
    · simpa [next, Current, same, Ne.symm same] using old
  | exit a =>
    refine ⟨h.pid, fun b found => ?_⟩
    have old := h.found b found
    by_cases same : a = b
    · subst same
      simp [next, Current]
    · simpa [next, Current, same, Ne.symm same] using old

theorem remembers_run {tasks : List (τ × Int32)} {s : System τ} {as : List (Act τ)}
    (h : Run machine (start tasks) as s) : Remembers s := by
  refine run_invariant ⟨?_, ?_⟩ (fun _ _ => remembers_next) h <;> rintro a ⟨⟩

theorem intended_iff {s : System τ} (h : Remembers s) (c : Act τ) :
    Intended s c ↔ FoundIsCurrent s c := by
  cases c with
  | write flag fault buffer stack =>
    by_cases sig : flag = FLAG_SIG
    · subst sig
      constructor
      · intro intended _ a found
        have sent : (write_entry s.vars s.tasks FLAG_SIG fault buffer stack).sent =
            some ((simple_strtol (copy_to_front fault stack buffer buffer.length)).toInt32, a) := by
          rw [write_sig, Option.mem_def.mp found]
          rfl
        obtain ⟨p, written, live⟩ := intended _ a sent
        cases (h.pid a found).symm.trans written
        exact (h.found a found).mpr live
      · intro current sig a sent
        rw [write_sig] at sent
        obtain ⟨t, found, same⟩ := Option.map_eq_some_iff.mp sent
        have target : t = a := congrArg Prod.snd same
        rw [← target]
        exact ⟨s.vars.pid, h.pid t found, (h.found t found).mp (current rfl t found)⟩
    · refine iff_of_true (fun sig' a sent => ?_) fun same => absurd same sig
      simp only [write_entry, if_neg sig] at sent
      split at sent <;> cases sent
  | create | exit => exact Iff.rfl

end

/-- In every run of writes, task creations and exits, each signal goes to a live task that has the
pid last written to `rx_PID` exactly if, whenever one is to be sent, the task that the write to
`rx_PID` found has not exited since (or its address and its pid are both in use again). -/
theorem signals_intended_iff {τ : Type} [DecidableEq τ] (tasks : List (τ × Int32))
    (as : List (Act τ)) :
    Meets machine Intended (start tasks) as ↔ Meets machine FoundIsCurrent (start tasks) as := by
  constructor
  · intro intended pre c post t split before
    exact (intended_iff (remembers_run before) c).mp (intended pre c post t split before)
  · intro current pre c post t split before
    exact (intended_iff (remembers_run before) c).mpr (current pre c post t split before)

/-- A task is found, exits, and its pid goes to another one: the signal is sent to the first. -/
theorem signal_to_exited_task :
    let tasks : List (Fin 2 × Int32) := [(0, 5)]
    let as : List (Act (Fin 2)) := [.write FLAG_PID none (ascii "5\n".toList) [], .exit 0, .create 1 5]
    let s := machine.replay (start tasks) as
    let w := write_entry s.vars s.tasks FLAG_SIG none [57, 10] []
    Run machine (start tasks) as s ∧ w.sent = some (9, 0) ∧ s.tasks = [(1, 5)] ∧
      ¬ Meets machine Intended (start tasks) (as ++ [.write FLAG_SIG none [57, 10] []]) := by
  intro tasks as s w
  have run : Run machine (start tasks) as s := run_of_admits (by decide)
  have sent : w.sent = some (9, 0) := by decide
  refine ⟨run, sent, by decide, fun intended => ?_⟩
  obtain ⟨p, _, live⟩ := intended as _ [] s rfl run 9 0 sent
  have gone : ∀ q, (0, q) ∉ s.tasks := by
    intro q mem
    rw [show s.tasks = [(1, 5)] by decide] at mem
    simp at mem
  exact gone p live

end DeviceDriverEx.ProcSig
