import DeviceDriverEx.CString
import DeviceDriverEx.Decimal
import DeviceDriverEx.Workqueue

namespace DeviceDriverEx.DeferredMessage

open Workqueue (SIZE)

/-- What a write is called with; the copy does not fault. -/
structure Message where
  buf : Bytes
  count : UInt64

/-- `count` behind `if (count > SIZE) count = SIZE;` -/
def Message.clamped (m : Message) : UInt64 := if m.count > SIZE then SIZE else m.count

def Message.text (m : Message) : List UInt8 := (List.range m.clamped.toNat).map m.buf

/-- The buffer, and the value returned. -/
def mydev_write (buf : Bytes) (m : Message) : Bytes × Int32 :=
  (copyBytes buf 0 m.buf 0 m.clamped.toNat, m.clamped.toUInt32.toInt32)

/-- `char buf[SIZE]` -/
def content (buf : Bytes) : List UInt8 := (List.range SIZE.toNat).map buf

/-- `pr_info("what i get from write: %s\n", ...)` -/
def line (text : List UInt8) : List UInt8 := ascii "what i get from write: ".toList ++ text ++ [10]

/-- What is printed of the buffer, with `behind` in the memory behind it. -/
def print_buf (buf : Bytes) (behind : List UInt8) : List UInt8 :=
  line (cstring (content buf ++ behind))

/-- The one of 20_LAB1_wq, which finds the device around its work item. -/
def wq_func : Bytes → List UInt8 → List UInt8 := print_buf

/-- The one of 20_LAB1_tasklets, whose `data` is the address of the buffer. -/
def tasklet_func : Bytes → List UInt8 → List UInt8 := print_buf

inductive Lab
  | workqueue
  | tasklets
  deriving DecidableEq

def Lab.deferred : Lab → Bytes → List UInt8 → List UInt8
  | workqueue => wq_func
  | tasklets => tasklet_func

/-- The driver between its writes and its runs, with the writes so far, the last one first. -/
structure State where
  buf : Bytes
  pending : Bool
  written : List Message

/-- A write schedules the deferred function at its end. -/
inductive Act
  | write (m : Message)
  | run (behind : List UInt8)

def init : State := ⟨fun _ => 0, false, []⟩

def Enabled (s : State) : Act → Prop
  | .write _ => True
  | .run _ => s.pending = true

def next (s : State) : Act → State
  | .write m => ⟨(mydev_write s.buf m).1, true, m :: s.written⟩
  | .run _ => { s with pending := false }

def machine : Machine State Act := ⟨Enabled, next⟩

instance (s : State) : ∀ a : Act, Decidable (machine.Enabled s a)
  | .write _ => isTrue trivial
  | .run _ => inferInstanceAs (Decidable (s.pending = true))

/-- In the finer model of 20_LAB1_wq a write that nothing comes between does the same. -/
theorem workqueue_write {ι : Type} [DecidableEq ι] {call : ι → Workqueue.Write} {i : ι}
    {m : Message} (h : call i = ⟨m.buf, m.count, none⟩) (s : Workqueue.State ι) :
    let t := Workqueue.next call (Workqueue.next call s (.copy_from_user i)) (.schedule_work i)
    t.buf = (mydev_write s.buf m).1 ∧ t.n i = (mydev_write s.buf m).2 ∧ t.pending = true := by
  simp [Workqueue.next, mydev_write, Message.clamped, copied, copy_from_user_whole, h]

/-- What the writes leave in the buffer. -/
def left (written : List Message) : Bytes :=
  lastStored (written.map fun m => .stored () 0 m.buf m.clamped.toNat) ()

/-- A run prints the last text up to its first NUL and looks at nothing outside the buffer. -/
def PrintsLast (lab : Lab) (s : State) : Act → Prop
  | .run behind => ∃ m earlier, s.written = m :: earlier ∧
      lab.deferred s.buf behind = line (cstring m.text) ∧
      scanned (content s.buf ++ behind) ≤ SIZE.toNat
  | .write _ => True

/-- The last text has a NUL, or it ends where the writes before it left one. -/
def EndsInBuffer : List Message → Prop
  | [] => False
  | m :: earlier => 0 ∈ m.text ∨ m.clamped < SIZE ∧ left earlier m.clamped.toNat = 0

instance : ∀ written, Decidable (EndsInBuffer written)
  | [] => isFalse id
  | m :: earlier => inferInstanceAs
      (Decidable (0 ∈ m.text ∨ m.clamped < SIZE ∧ left earlier m.clamped.toNat = 0))

def EndsInside (s : State) : Act → Prop
  | .run _ => EndsInBuffer s.written
  | .write _ => True

instance (s : State) : ∀ a, Decidable (EndsInside s a)
  | .run _ => inferInstanceAs (Decidable (EndsInBuffer s.written))
  | .write _ => isTrue trivial

theorem Message.clamped_le (m : Message) : m.clamped.toNat ≤ SIZE.toNat := by
  rw [clamped]
  split
  next => exact Nat.le_refl _
  next small => exact UInt64.le_iff_toNat_le.mp (UInt64.not_lt.mp small)

theorem Message.text_length (m : Message) : m.text.length = m.clamped.toNat := by
  rw [text, List.length_map, List.length_range]

/-- The buffer from offset `n` on. -/
def rest (buf : Bytes) (n : Nat) : List UInt8 :=
  (List.range (SIZE.toNat - n)).map fun k => buf (n + k)

theorem content_write (buf : Bytes) (m : Message) :
    content (mydev_write buf m).1 = m.text ++ rest buf m.clamped.toNat := by
  have split : SIZE.toNat = m.clamped.toNat + (SIZE.toNat - m.clamped.toNat) := by
    have le := m.clamped_le
    omega
  rw [content, split, List.range_add, List.map_append, List.map_map]
  congr 1
  · refine List.map_congr_left fun k hk => ?_
    exact (copyBytes_front (List.mem_range.mp hk)).trans (congrArg m.buf (Nat.zero_add k))
  · refine List.map_congr_left fun k _ => ?_
    refine copyBytes_outside (Or.inr ?_)
    rw [Nat.zero_add]
    exact Nat.le_add_right ..

theorem rest_cons {buf : Bytes} {n : Nat} (h : n < SIZE.toNat) :
    rest buf n = buf n :: rest buf (n + 1) := by
  have split : SIZE.toNat - n = SIZE.toNat - (n + 1) + 1 := by omega
  rw [rest, split, List.range_succ_eq_map, List.map_cons, List.map_map]
  congr 1
  refine List.map_congr_left fun k _ => ?_
  exact congrArg buf (by omega)

theorem line_inj {s t : List UInt8} : line s = line t ↔ s = t := by
  rw [line, line, List.append_left_inj, List.append_right_inj]

/-- A text without a NUL is printed alone if and only if a NUL follows it in the buffer. -/
theorem printed_iff (buf : Bytes) (m : Message) (behind : List UInt8) :
    (cstring (content (mydev_write buf m).1 ++ behind) = cstring m.text ∧
      scanned (content (mydev_write buf m).1 ++ behind) ≤ SIZE.toNat) ↔
      0 ∈ m.text ∨ m.clamped < SIZE ∧ buf m.clamped.toNat = 0 := by
  have length := m.text_length
  have le := m.clamped_le
  rw [content_write, List.append_assoc, UInt64.lt_iff_toNat_lt]
  by_cases nul : 0 ∈ m.text
  · have inside := scanned_append nul (rest buf m.clamped.toNat ++ behind)
    exact iff_of_true ⟨cstring_append nul _, by omega⟩ (Or.inl nul)
  rw [or_iff_right nul]
  rcases Nat.lt_or_ge m.clamped.toNat SIZE.toNat with room | full
  · rw [rest_cons room, List.cons_append, cstring_ends_iff nul, and_iff_right room,
      and_iff_left_iff_imp]
    intro zero
    rw [zero, scanned_nul nul]
    omega
  · have outside := length_lt_scanned nul (rest buf m.clamped.toNat ++ behind)
    exact iff_of_false (fun both => by omega) fun both => by omega

structure Inv (s : State) : Prop where
  buf : s.buf = left s.written
  some : s.pending = true → s.written ≠ []

theorem left_cons (m : Message) (earlier : List Message) :
    left (m :: earlier) = (mydev_write (left earlier) m).1 :=
  lastStored_stored ..

theorem inv_step {s : State} (a : Act) (h : Inv s) : Inv (next s a) := by
  cases a with
  | write m =>
    refine ⟨?_, fun _ => List.cons_ne_nil m s.written⟩
    exact (congrArg (fun buf => (mydev_write buf m).1) h.buf).trans (left_cons ..).symm
  | run behind => exact ⟨h.buf, nofun⟩

theorem inv_run {as : List Act} {s : State} (h : Run machine init as s) : Inv s := by
  have base : Inv init := ⟨rfl, nofun⟩
  exact run_invariant base (fun _ a inv _ => inv_step a inv) h

theorem printsLast_iff (lab : Lab) {s : State} {a : Act} (inv : Inv s) (enabled : Enabled s a) :
    PrintsLast lab s a ↔ EndsInside s a := by
  cases a with
  | write m => exact Iff.rfl
  | run behind =>
    obtain ⟨m, earlier, written⟩ := List.exists_cons_of_ne_nil (inv.some enabled)
    have buf : s.buf = (mydev_write (left earlier) m).1 := by
      rw [inv.buf, written, left_cons]
    have deferred : lab.deferred s.buf behind = line (cstring (content s.buf ++ behind)) := by
      cases lab <;> rfl
    have last := printed_iff (left earlier) m behind
    rw [← buf, ← line_inj, ← deferred] at last
    rw [EndsInside, written]
    constructor
    · rintro ⟨m', earlier', same, prints⟩
      obtain ⟨rfl, rfl⟩ := List.cons.inj (written.symm.trans same)
      exact last.mp prints
    · exact fun ends => ⟨m, earlier, written, last.mpr ends⟩

/-- Once nothing is pending any more, the last text written has been printed. -/
def LastPrinted (lab : Lab) (as : List Act) (s : State) : Prop :=
  s.pending = false → ∀ pre m post, as = pre ++ .write m :: post → (∀ m', .write m' ∉ post) →
    ∃ mid behind after t, post = mid ++ .run behind :: after ∧
      Run machine init (pre ++ .write m :: mid) t ∧
      lab.deferred t.buf behind = line (cstring m.text)

theorem lastPrinted (lab : Lab) {as : List Act} {s : State} (h : Run machine init as s)
    (prints : Meets machine (PrintsLast lab) init as) : LastPrinted lab as s := by
  rintro idle pre m post rfl last
  rw [← List.singleton_append, ← List.append_assoc] at h prints
  obtain ⟨t, before, later⟩ := run_split h
  have wrote : t = next (machine.replay init pre) (.write m) := by
    rw [run_replay before, Machine.replay, List.foldl_append]
    rfl
  cases post with
  | nil =>
    have same := run_unique later Run.start
    rw [same, wrote] at idle
    cases idle
  | cons a after =>
    cases a with
    | write m' => exact absurd List.mem_cons_self (last m')
    | run behind =>
      obtain ⟨m', earlier, written, printed, _⟩ := prints _ _ _ t rfl before
      rw [wrote] at written
      obtain ⟨rfl, _⟩ := List.cons.inj written
      exact ⟨[], behind, after, t, rfl, before, printed⟩

/-- A run prints what was written exactly if the last text has a NUL of its own or ends where the
earlier ones left one; and then the last text of all is printed. -/
theorem deferred_prints_iff (lab : Lab) {as : List Act} {s : State} (h : Run machine init as s) :
    (Meets machine (PrintsLast lab) init as ∧ LastPrinted lab as s) ↔
      Meets machine EndsInside init as := by
  have steps := meets_congr h fun _ _ _ run enabled =>
    @printsLast_iff lab _ _ (inv_run run) enabled
  rw [← steps, and_iff_left_iff_imp]
  exact lastPrinted lab h

/-- A longer message follows a shorter one. -/
theorem deferred_prints_iff_longer :
    let as : List Act := [.write ⟨fun _ => 65, 1⟩, .run [], .write ⟨fun _ => 66, 3⟩, .run []]
    Meets machine (PrintsLast .tasklets) init as ∧
      LastPrinted .tasklets as (machine.replay init as) := by
  intro as
  have run : Run machine init as (machine.replay init as) := run_of_admits (by decide)
  exact (deferred_prints_iff .tasklets run).mpr (meets_of_replay (by decide))

/-- A shorter one is printed with what it leaves of the longer one before it. -/
theorem deferred_prints_earlier_bytes :
    let as : List Act := [.write ⟨fun _ => 65, 3⟩, .run [], .write ⟨fun _ => 66, 1⟩]
    Run machine init (as ++ [.run []]) (machine.replay init (as ++ [.run []])) ∧
      wq_func (machine.replay init as).buf [] = line [66, 65, 65] ∧
      ∀ lab, ¬ Meets machine (PrintsLast lab) init (as ++ [.run []]) := by
  intro as
  have printed (lab : Lab) :
      lab.deferred (machine.replay init as).buf [] = line [66, 65, 65] := by
    cases lab <;> decide
  refine ⟨run_of_admits (by decide), printed .workqueue, fun lab meets => ?_⟩
  obtain ⟨m, earlier, written, text, _⟩ := meets_last meets (run_of_admits (by decide))
  obtain ⟨rfl, _⟩ := List.cons.inj written
  rw [printed, line_inj] at text
  exact absurd text (by decide)

end DeviceDriverEx.DeferredMessage
