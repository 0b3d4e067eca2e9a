import Mathlib.Data.Fintype.Basic
import DeviceDriverEx.GlobalmemLockBalance

namespace DeviceDriverEx.Rwsem

/-- The module's `globalmem_read`, from end to end with no other call beside it. -/
def globalmem_read (fault : Option Fault) (mem buf : Bytes) (count : UInt64) (ppos : Int64) :
    CallResult :=
  let pos := ppos.toUInt64
  if pos ≥ GLOBALMEM_SIZE then ⟨0, ppos, buf⟩
  else copyOut fault mem buf (clampCount pos count) ppos

def globalmem_write (fault : Option Fault) (mem buf : Bytes) (count : UInt64) (ppos : Int64) :
    CallResult :=
  let pos := ppos.toUInt64
  if pos ≥ GLOBALMEM_SIZE then ⟨0, ppos, mem⟩
  else copyIn fault mem buf (clampCount pos count) ppos

section
variable {ι δ : Type} [DecidableEq ι] [DecidableEq δ]

/-- One call at a time: what it returns, with the user's buffer, and the memories it leaves. -/
def Op.exec (mem : δ → Bytes) : Op δ → CallResult × (δ → Bytes)
  | .read dev buf count ppos => (globalmem_read none (mem dev) buf count ppos, mem)
  | .write dev buf count ppos =>
    let r := globalmem_write none (mem dev) buf count ppos
    (⟨r.rval, r.ppos, buf⟩, Function.update mem dev r.bytes)
  | .clear dev =>
    let r := globalmem_ioctl (mem dev) MEM_CLEAR
    (⟨r.1, 0, fun _ => 0⟩, Function.update mem dev r.2)

/-- The results of the calls in `order`, one after the other. -/
def serial (call : ι → Op δ) : (δ → Bytes) → List ι → List (ι × CallResult)
  | _, [] => []
  | mem, i :: order => (i, ((call i).exec mem).1) :: serial call ((call i).exec mem).2 order

def serialMem (call : ι → Op δ) (mem : δ → Bytes) (order : List ι) : δ → Bytes :=
  order.foldl (fun mem i => ((call i).exec mem).2) mem

omit [DecidableEq ι] in
theorem exec_read {ppos : Int64} (inside : ppos.toUInt64 < GLOBALMEM_SIZE) (dev : δ) (buf : Bytes)
    (count : UInt64) (mem : δ → Bytes) :
    (Op.read dev buf count ppos).exec mem =
      (⟨(clampCount ppos.toUInt64 count).toUInt32.toInt32.toInt64,
        (ppos.toUInt64 + clampCount ppos.toUInt64 count).toInt64,
        copyBytes buf 0 (mem dev) ppos.toUInt64.toNat (clampCount ppos.toUInt64 count).toNat⟩,
      mem) := by
  simp only [Op.exec, globalmem_read, ge_iff_le, UInt64.not_le.mpr inside, if_false, copyOut,
    copied, Nat.sub_self, afterCopy, ne_eq, not_true_eq_false]

omit [DecidableEq ι] in
theorem exec_write {ppos : Int64} (inside : ppos.toUInt64 < GLOBALMEM_SIZE) (dev : δ) (buf : Bytes)
    (count : UInt64) (mem : δ → Bytes) :
    (Op.write dev buf count ppos).exec mem =
      (⟨(clampCount ppos.toUInt64 count).toUInt32.toInt32.toInt64,
        (ppos.toUInt64 + clampCount ppos.toUInt64 count).toInt64, buf⟩,
      Function.update mem dev (copyBytes (mem dev) ppos.toUInt64.toNat buf 0
        (clampCount ppos.toUInt64 count).toNat)) := by
  simp only [Op.exec, globalmem_write, ge_iff_le, UInt64.not_le.mpr inside, if_false, copyIn,
    copied, Nat.sub_self, afterCopy, ne_eq, not_true_eq_false, copy_from_user_whole]

omit [DecidableEq ι] in
theorem exec_clear (dev : δ) (mem : δ → Bytes) :
    (Op.clear dev).exec mem = (⟨0, 0, fun _ => 0⟩,
      Function.update mem dev (memset (mem dev) 0 GLOBALMEM_SIZE.toNat)) := rfl

omit [DecidableEq ι] in
theorem serial_append (call : ι → Op δ) (mem : δ → Bytes) (order : List ι) (i : ι) :
    serial call mem (order ++ [i]) =
      serial call mem order ++ [(i, ((call i).exec (serialMem call mem order)).1)] := by
  induction order generalizing mem with
  | nil => rfl
  | cons j order ih => simp only [List.cons_append, serial, ih, serialMem, List.foldl_cons]

omit [DecidableEq ι] in
theorem serialMem_append (call : ι → Op δ) (mem : δ → Bytes) (order : List ι) (i : ι) :
    serialMem call mem (order ++ [i]) = ((call i).exec (serialMem call mem order)).2 := by
  simp only [serialMem, List.foldl_append, List.foldl_cons, List.foldl_nil]

/-- What a call has got so far. -/
def Frame.result (fr : Frame) : CallResult := ⟨fr.rval, fr.ppos, fr.buf⟩

/-- The copying is done. -/
def Pc.ended : Pc → Bool
  | up => true
  | returned => true
  | _ => false

/-- A read or write of the device holds `rwsem`. -/
def Busy (call : ι → Op δ) (s : State ι δ) (d : δ) : Prop :=
  ∃ j, (call j).dev = d ∧ Inside (call j) (s.frame j)

def Clearing (call : ι → Op δ) (s : State ι δ) (d : δ) (j : ι) : Prop :=
  (call j).mode = none ∧ (call j).dev = d ∧ (s.frame j).pc = .copy

def Storing (call : ι → Op δ) (s : State ι δ) (d : δ) (j : ι) : Prop :=
  (call j).mode = some .write ∧ (call j).dev = d ∧ (s.frame j).pc = .copy

instance (call : ι → Op δ) (s : State ι δ) (d : δ) (j : ι) : Decidable (Clearing call s d j) :=
  inferInstanceAs (Decidable (_ ∧ _ ∧ _))

instance (call : ι → Op δ) (s : State ι δ) (d : δ) (j : ι) : Decidable (Storing call s d j) :=
  inferInstanceAs (Decidable (_ ∧ _ ∧ _))

instance [Fintype ι] (call : ι → Op δ) (s : State ι δ) (d : δ) : Decidable (Busy call s d) :=
  inferInstanceAs (Decidable (∃ j, (call j).dev = d ∧ (call j).mode ≠ none ∧
    (s.frame j).pc.held = true))

/-- A `MEM_CLEAR` of the device has begun and not ended. -/
def HalfCleared (call : ι → Op δ) (s : State ι δ) (d : δ) : Prop :=
  ∃ j, Clearing call s d j ∧ 0 < (s.frame j).moved

instance [Fintype ι] (call : ι → Op δ) (s : State ι δ) (d : δ) : Decidable (HalfCleared call s d) :=
  inferInstanceAs (Decidable (∃ j, Clearing call s d j ∧ 0 < (s.frame j).moved))

/-- The clears keep to the discipline that `rwsem` imposes on the reads and writes. -/
def ClearsApart (call : ι → Op δ) (s : State ι δ) : Act ι → Prop
  | .down i => ¬ HalfCleared call s (call i).dev
  | .byte i => (call i).mode = none → ¬ Busy call s (call i).dev
  | _ => True

instance [Fintype ι] (call : ι → Op δ) (s : State ι δ) : ∀ a : Act ι, Decidable (ClearsApart call s a)
  | .down i => inferInstanceAs (Decidable (¬ HalfCleared call s (call i).dev))
  | .byte i => inferInstanceAs (Decidable ((call i).mode = none → ¬ Busy call s (call i).dev))
  | .check _ | .fault _ _ | .finish _ | .up _ => isTrue trivial

/-- How far a call has come that has not copied everything, given the memories of the serial
execution. -/
def Progress (mem abs : δ → Bytes) (fr : Frame) : Op δ → Prop
  | .read dev buf _ ppos =>
    fr.ppos = ppos ∧ (fr.pc ≠ .copy → fr.moved = 0) ∧
      fr.buf = copyBytes buf 0 (mem dev) ppos.toUInt64.toNat fr.moved
  | .write dev buf _ ppos =>
    fr.ppos = ppos ∧ (fr.pc ≠ .copy → fr.moved = 0) ∧ fr.buf = buf ∧
      (fr.pc = .copy → mem dev = copyBytes (abs dev) ppos.toUInt64.toNat buf 0 fr.moved)
  | .clear dev => fr.ppos = 0 ∧ fr.buf = (fun _ => 0) ∧ ∀ x < fr.moved, mem dev x = 0

/-- The state after a run whose copies were completed in this order: it agrees with the serial
execution but for what the calls under way have changed. -/
structure Follows (call : ι → Op δ) (mem : δ → Bytes) (order : List ι) (s : State ι δ) :
    Prop where
  lock : LockInv call s
  apart : ∀ d, Busy call s d → ¬ HalfCleared call s d
  progress : ∀ i, (s.frame i).pc.ended = false →
    Progress s.mem (serialMem call mem order) (s.frame i) (call i)
  calm : ∀ d, (∀ j, ¬ Storing call s d j) → ∀ x, s.mem d x = serialMem call mem order d x ∨
    ∃ j, Clearing call s d j ∧ x < (s.frame j).moved
  committed : ∀ i, i ∈ order ↔ (s.frame i).pc.ended = true
  nodup : order.Nodup
  results : serial call mem order = order.map fun i => (i, (s.frame i).result)

omit [DecidableEq ι] in
theorem follows_init (call : ι → Op δ) (mem : δ → Bytes) :
    Follows call mem [] (init call mem) := by
  have early : ∀ i, ((init call mem).frame i).pc.ended = false := by
    intro i
    cases hc : call i <;> simp [init, Op.enter, hc, Pc.ended]
  refine ⟨fun i => inStep_enter (call i) i, ?_, ?_, fun d _ x => Or.inl rfl, ?_, List.nodup_nil, rfl⟩
  · intro d busy
    obtain ⟨j, _, inside⟩ := busy
    cases hc : call j <;> simp [init, Inside, Op.enter, Op.mode, hc, Pc.held] at inside
  · intro i _
    cases hc : call i with
    | read dev buf count ppos => simp [init, hc, Op.enter, Progress, copyBytes_zero]
    | write dev buf count ppos => simp [init, hc, Op.enter, Progress]
    | clear dev => simp [init, hc, Op.enter, Progress]
  · intro i
    rw [early i]
    simp

omit [DecidableEq ι] [DecidableEq δ] in
theorem not_ended_of_held {fr : Frame} (h : fr.pc = .check ∨ fr.pc = .copy) : fr.pc.ended = false := by
  rcases h with h | h <;> rw [h] <;> rfl

omit [DecidableEq ι] [DecidableEq δ] in
/-- A writer that holds `rwsem` is the only call inside. -/
theorem LockInv.alone {call : ι → Op δ} {s : State ι δ} (h : LockInv call s) {i j : ι}
    (hm : (call i).mode = some .write) (hi : (s.frame i).pc.held = true)
    (hj : Inside (call j) (s.frame j)) : j = i := by
  obtain ⟨m, hk⟩ := Option.ne_none_iff_exists'.mp hj.1
  exact (RwLock.held_alone ((h i).held _ hm hi) ((h j).held m hk hj.2)).1

omit [DecidableEq ι] [DecidableEq δ] in
/-- While a call other than a storing write is inside, nobody is storing. -/
theorem LockInv.no_store {call : ι → Op δ} {s : State ι δ} (h : LockInv call s) {i : ι} {d : δ}
    (inside : Inside (call i) (s.frame i)) (own : ¬ Storing call s d i) (j : ι) :
    ¬ Storing call s d j := by
  intro hst
  have hj : i = j := h.alone hst.1 (by rw [hst.2.2]; rfl) inside
  rw [← hj] at hst
  exact own hst

omit [DecidableEq ι] in
/-- While a call holds `rwsem` and no writer is storing, the device is as the serial execution
has it. -/
theorem Follows.agrees {call : ι → Op δ} {mem : δ → Bytes} {order : List ι} {s : State ι δ}
    (h : Follows call mem order s) {d : δ} (busy : Busy call s d)
    (idle : ∀ j, ¬ Storing call s d j) : s.mem d = serialMem call mem order d := by
  funext x
  rcases h.calm d idle x with same | ⟨j, clearing, hx⟩
  · exact same
  · exact absurd ⟨j, clearing, by omega⟩ (h.apart d busy)

/-- The steps of a read or write that store nothing. -/
theorem follows_frame {call : ι → Op δ} {mem : δ → Bytes} {order : List ι} {s : State ι δ} {i : ι}
    {fr : Frame} {l : RwLock ι} (h : Follows call mem order s) (locks : (call i).mode ≠ none)
    (lock : LockInv call { s.setFrame i fr with rwsem := l })
    (guard : Inside (call i) fr → ¬ HalfCleared call s (call i).dev)
    (storing : (s.frame i).pc = .copy → fr.pc = .copy)
    (ended : fr.pc.ended = (s.frame i).pc.ended)
    (result : fr.pc.ended = true → fr.result = (s.frame i).result)
    (progress : fr.pc.ended = false → Progress s.mem (serialMem call mem order) fr (call i)) :
    Follows call mem order { s.setFrame i fr with rwsem := l } := by
  have own : (s.setFrame i fr).frame i = fr := setFrame_self s i fr
  have others : ∀ j ≠ i, (s.setFrame i fr).frame j = s.frame j :=
    fun j hj => setFrame_of_ne s hj fr
  have clearing : ∀ d j, Clearing call { s.setFrame i fr with rwsem := l } d j ↔
      Clearing call s d j := by
    intro d j
    by_cases hj : j = i
    · subst hj
      exact ⟨fun hc => absurd hc.1 locks, fun hc => absurd hc.1 locks⟩
    · simp only [Clearing, others j hj]
  have same : ∀ d j, Clearing call s d j → (s.setFrame i fr).frame j = s.frame j := by
    intro d j hc
    refine others j ?_
    rintro rfl
    exact locks hc.1
  refine ⟨lock, ?_, ?_, ?_, ?_, h.nodup, ?_⟩
  · intro d busy half
    obtain ⟨j, hd, inside⟩ := busy
    obtain ⟨k, hk, moved⟩ := half
    have hk' := (clearing d k).mp hk
    change 0 < ((s.setFrame i fr).frame k).moved at moved
    rw [same d k hk'] at moved
    by_cases hj : j = i
    · subst hj
      change Inside (call j) ((s.setFrame j fr).frame j) at inside
      rw [own] at inside
      exact guard inside ⟨k, hd.symm ▸ hk', moved⟩
    · change Inside (call j) ((s.setFrame i fr).frame j) at inside
      rw [others j hj] at inside
      exact h.apart d ⟨j, hd, inside⟩ ⟨k, hk', moved⟩
  · intro j hp
    change ((s.setFrame i fr).frame j).pc.ended = false at hp
    change Progress s.mem _ ((s.setFrame i fr).frame j) (call j)
    by_cases hj : j = i
    · subst hj
      rw [own] at hp ⊢
      exact progress hp
    · rw [others j hj] at hp ⊢
      exact h.progress j hp
  · intro d idle x
    have idle' : ∀ j, ¬ Storing call s d j := by
      intro j hst
      refine idle j ⟨hst.1, hst.2.1, ?_⟩
      change ((s.setFrame i fr).frame j).pc = .copy
      by_cases hj : j = i
      · subst hj
        rw [own]
        exact storing hst.2.2
      · rw [others j hj]
        exact hst.2.2
    rcases h.calm d idle' x with agree | ⟨j, hc, hx⟩
    · exact Or.inl agree
    · refine Or.inr ⟨j, (clearing d j).mpr hc, ?_⟩
      change x < ((s.setFrame i fr).frame j).moved
      rw [same d j hc]
      exact hx
  · intro j
    change j ∈ order ↔ ((s.setFrame i fr).frame j).pc.ended = true
    by_cases hj : j = i
    · subst hj
      rw [own, ended]
      exact h.committed j
    · rw [others j hj]
      exact h.committed j
  · rw [h.results]
    refine List.map_congr_left fun j hj => ?_
    change (j, (s.frame j).result) = (j, ((s.setFrame i fr).frame j).result)
    by_cases hji : j = i
    · subst hji
      rw [own, result (by rw [ended]; exact (h.committed j).mp hj)]
    · rw [others j hji]

omit [DecidableEq ι] [DecidableEq δ] in
theorem progress_other {op : Op δ} {mem abs mem' abs' : δ → Bytes} {fr : Frame}
    (h : Progress mem abs fr op)
    (kept : mem' op.dev = mem op.dev ∧ abs' op.dev = abs op.dev ∨
      (op.mode ≠ none → fr.pc ≠ .copy) ∧
        (op.mode = none → ∀ x < fr.moved,
          mem' op.dev x = mem op.dev x ∨ mem' op.dev x = 0)) :
    Progress mem' abs' fr op := by
  cases op with
  | read dev buf count ppos =>
    obtain ⟨hp, idle, hb⟩ := h
    refine ⟨hp, idle, ?_⟩
    rcases kept with ⟨same, _⟩ | ⟨out, _⟩
    · rw [hb, show mem' dev = mem dev from same]
    · have hz := idle (out (Option.some_ne_none _))
      rw [hb, hz, copyBytes_zero, copyBytes_zero]
  | write dev buf count ppos =>
    obtain ⟨hp, idle, hb, stored⟩ := h
    refine ⟨hp, idle, hb, fun hcopy => ?_⟩
    rcases kept with ⟨same, abs_same⟩ | ⟨out, _⟩
    · rw [show mem' dev = mem dev from same, show abs' dev = abs dev from abs_same]
      exact stored hcopy
    · exact absurd hcopy (out (Option.some_ne_none _))
  | clear dev =>
    obtain ⟨hp, hb, cleared⟩ := h
    refine ⟨hp, hb, fun x hx => ?_⟩
    rcases kept with ⟨same, _⟩ | ⟨_, same⟩
    · rw [show mem' dev = mem dev from same]
      exact cleared x hx
    · rcases same rfl x hx with hs | hz
      · exact hs.trans (cleared x hx)
      · exact hz

omit [DecidableEq ι] in
theorem results_kept {call : ι → Op δ} {mem : δ → Bytes} {order : List ι} {s t : State ι δ} {i : ι}
    (h : Follows call mem order s) (others : ∀ j ≠ i, t.frame j = s.frame j)
    (before : (s.frame i).pc.ended = false) (after : (t.frame i).pc.ended = false) :
    (∀ j, j ∈ order ↔ (t.frame j).pc.ended = true) ∧
      serial call mem order = order.map fun j => (j, (t.frame j).result) := by
  have absent : i ∉ order := by
    intro hi
    rw [(h.committed i).mp hi] at before
    cases before
  refine ⟨fun j => ?_, ?_⟩
  · by_cases hj : j = i
    · subst hj
      rw [after]
      exact ⟨fun hi => absurd hi absent, fun hf => by cases hf⟩
    · rw [others j hj]
      exact h.committed j
  · rw [h.results]
    refine List.map_congr_left fun j hj => ?_
    rw [others j (by rintro rfl; exact absent hj)]

omit [DecidableEq ι] in
/-- A call that has copied everything takes its place in the order. -/
theorem results_commit {call : ι → Op δ} {mem : δ → Bytes} {order : List ι} {s t : State ι δ}
    {i : ι} (h : Follows call mem order s) (others : ∀ j ≠ i, t.frame j = s.frame j)
    (before : (s.frame i).pc.ended = false) (after : (t.frame i).pc.ended = true)
    (result : ((call i).exec (serialMem call mem order)).1 = (t.frame i).result) :
    (∀ j, j ∈ order ++ [i] ↔ (t.frame j).pc.ended = true) ∧ (order ++ [i]).Nodup ∧
      serial call mem (order ++ [i]) = (order ++ [i]).map fun j => (j, (t.frame j).result) := by
  have absent : i ∉ order := by
    intro hi
    rw [(h.committed i).mp hi] at before
    cases before
  refine ⟨fun j => ?_, ?_, ?_⟩
  · rw [List.mem_append, List.mem_singleton]
    by_cases hj : j = i
    · subst hj
      exact ⟨fun _ => after, fun _ => Or.inr rfl⟩
    · rw [others j hj, ← h.committed j]
      exact ⟨fun hor => hor.resolve_right hj, Or.inl⟩
  · refine List.Nodup.append h.nodup (List.nodup_singleton i) fun j hj hji => ?_
    rw [List.mem_singleton.mp hji] at hj
    exact absent hj
  · rw [serial_append, h.results, result, List.map_append, List.map_singleton]
    congr 1
    refine List.map_congr_left fun j hj => ?_
    rw [others j (by rintro rfl; exact absent hj)]

end

end DeviceDriverEx.Rwsem
