import DeviceDriverEx.LabChar

namespace DeviceDriverEx.LabChar

/-- The calls of one thread on its open file. -/
inductive Op (φ : Type)
  | read (f : φ) (fault : Option Fault) (buf : Bytes) (lbuf : UInt64)
  | write (f : φ) (fault : Option Fault) (buf : Bytes) (lbuf : UInt64)
  | lseek (f : φ) (offset : Int64) (orig : Int32)

def Op.file {φ : Type} : Op φ → φ
  | .read f _ _ _ => f
  | .write f _ _ _ => f
  | .lseek f _ _ => f

/-- Where a thread stands: its call has still to load `f_pos`, to run the driver's function on what
it loaded, to store the position it got, or it has returned. -/
inductive Pc
  | load
  | run (ppos : Int64)
  | store (new : Option Int64) (rval : Int64)
  | returned (rval : Int64)

/-- What the driver's function leaves, and which bytes of the ramdisk it touched. -/
structure BodyResult where
  rval : Int64
  new : Option Int64
  ramdisk : Bytes
  buf : Bytes
  touched : Nat × Nat

def asked (size lbuf : UInt64) (ppos : Int64) : Nat :=
  (Slab.sizeOf (bytes_to_do size lbuf ppos)).toNat

def body {φ : Type} (size : UInt64) (ramdisk : Bytes) (ppos : Int64) : Op φ → BodyResult
  | .read _ fault buf lbuf =>
    let r := mycdrv_generic_read size fault ramdisk buf lbuf ppos
    ⟨r.rval, some r.ppos, ramdisk, r.bytes, ppos.toUInt64.toNat,
      copied fault (asked size lbuf ppos)⟩
  | .write _ fault buf lbuf =>
    let r := mycdrv_generic_write size fault ramdisk buf lbuf ppos
    ⟨r.rval, some r.ppos, r.bytes, buf, ppos.toUInt64.toNat,
      overwritten fault (asked size lbuf ppos)⟩
  | .lseek _ offset orig =>
    let r := mycdrv_generic_lseek size ppos offset orig
    ⟨r.1, r.2, ramdisk, fun _ => 0, 0, 0⟩

structure State (φ ι : Type) where
  ramdisk : Bytes
  f_pos : φ → Int64
  pc : ι → Pc
  touched : List (Nat × Nat)

inductive Act (ι : Type)
  | load (i : ι)
  | run (i : ι)
  | store (i : ι)

/-- Files just opened on whatever `kmalloc` returned. -/
def init {φ ι : Type} (ramdisk : Bytes) : State φ ι :=
  ⟨ramdisk, fun _ => 0, fun _ => .load, []⟩

section
variable {φ ι : Type} [DecidableEq φ] [DecidableEq ι] (size : UInt64) (op : ι → Op φ)

omit [DecidableEq φ] [DecidableEq ι] in
def Enabled (s : State φ ι) : Act ι → Prop
  | .load i => s.pc i = .load
  | .run i => ∃ p, s.pc i = .run p
  | .store i => ∃ new rval, s.pc i = .store new rval

/-- `sys_read`, `sys_write` and `sys_lseek` hold no lock between their steps. -/
def next (s : State φ ι) : Act ι → State φ ι
  | .load i => { s with pc := Function.update s.pc i (.run (s.f_pos (op i).file)) }
  | .run i => match s.pc i with
    | .run p =>
      let r := body size s.ramdisk p (op i)
      { s with
        ramdisk := r.ramdisk
        pc := Function.update s.pc i (.store r.new r.rval)
        touched := r.touched :: s.touched }
    | _ => s
  | .store i => match s.pc i with
    | .store new rval => { s with
        f_pos := match new with
          | some v => Function.update s.f_pos (op i).file v
          | none => s.f_pos
        pc := Function.update s.pc i (.returned rval) }
    | _ => s

def machine : Machine (State φ ι) (Act ι) := ⟨Enabled, next size op⟩

end

/-- A position on the device, its end included. -/
def Within (size : UInt64) (v : Int64) : Prop := 0 ≤ v.toInt ∧ v.toInt ≤ size.toNat

/-- What a call owes that runs at position `p` of the device. -/
def Kept {φ : Type} (size : Nat) (ramdisk : Bytes) (p : Nat) (r : BodyResult) : Op φ → Prop
  | .read _ fault buf lbuf =>
    let n := copied fault (min lbuf.toNat (size - p))
    r.rval.toInt = n ∧ (∃ v, r.new = some v ∧ v.toInt = (p + n : Nat)) ∧
      r.buf = copyBytes buf 0 ramdisk p n ∧ r.ramdisk = ramdisk
  | .write _ fault buf lbuf =>
    let n := copied fault (min lbuf.toNat (size - p))
    r.rval.toInt = n ∧ (∃ v, r.new = some v ∧ v.toInt = (p + n : Nat)) ∧
      r.ramdisk = copy_from_user fault ramdisk p buf (min lbuf.toNat (size - p))
  | .lseek _ offset orig => r.ramdisk = ramdisk ∧
    match seekTarget size p offset.toInt orig with
    | none => r.rval = (-EINVAL).toInt64 ∧ r.new = none
    | some t => r.rval.toInt = seekEnd size t ∧ r.new = some r.rval

section
variable {size : UInt64}

theorem Within.filePos {v : Int64} (h : Within size v) :
    ∃ p : FilePos, p.val = v ∧ p.toNat = v.toInt.toNat ∧ p.toNat ≤ size.toNat := by
  obtain ⟨nonneg, le⟩ := h
  have nonneg' : 0 ≤ v := by simpa [Int64.le_iff_toInt_le] using nonneg
  refine ⟨⟨v, nonneg'⟩, rfl, rfl, ?_⟩
  change v.toInt.toNat ≤ _
  omega

theorem seekEnd_within (size : Nat) (t : Int) : 0 ≤ seekEnd size t ∧ seekEnd size t ≤ size := by
  unfold seekEnd
  split <;> omega

/-- Each kind of seek goes where exact arithmetic says, whatever the offset. -/
theorem lseek_kept (small : size.toNat < 2 ^ 31) {v : Int64} (within : Within size v)
    (offset : Int64) (orig : Int32) :
    match seekTarget size.toNat v.toInt offset.toInt orig with
    | none => mycdrv_generic_lseek size v offset orig = ((-EINVAL).toInt64, none)
    | some t => ∃ r, mycdrv_generic_lseek size v offset orig = (r, some r) ∧
        r.toInt = seekEnd size.toNat t := by
  have last : size.toInt64.toInt = size.toNat := ssize_toInt (by omega)
  unfold seekTarget mycdrv_generic_lseek testpos
  by_cases set : orig = SEEK_SET
  · simp only [if_pos set]
    exact ⟨_, rfl, clampSeek_toInt small offset⟩
  simp only [if_neg set]
  by_cases cur : orig = SEEK_CUR
  · simp only [if_pos cur]
    exact ⟨_, rfl, seekEnd_wrapped small offset within.1 within.2 (Int64.toInt_add v offset)⟩
  simp only [if_neg cur]
  by_cases end_ : orig = SEEK_END
  · simp only [if_pos end_]
    refine ⟨_, rfl, seekEnd_wrapped small offset (by omega) (by omega) ?_⟩
    rw [← last]
    exact Int64.toInt_add size.toInt64 offset
  · simp only [if_neg end_]

theorem asked_within (small : size.toNat < 2 ^ 31) (lbuf : UInt64) {p : FilePos}
    (within : p.toNat ≤ size.toNat) : asked size lbuf p.val = min lbuf.toNat (size.toNat - p.toNat) := by
  have place : p.val.toUInt64.toNat = p.toNat := p.toUInt64_toNat
  unfold asked
  rw [bytes_to_do_within small lbuf within, clampTwice_within lbuf small (by omega),
    clampOnce_toNat, place]

/-- A transfer that starts on the device moves what is left of it at most, and says how much. -/
theorem transfer_within (small : size.toNat < 2 ^ 31) (fault : Option Fault) (lbuf : UInt64)
    {p : FilePos} (within : p.toNat ≤ size.toNat) (bytes : Bytes) :
    let n := copied fault (min lbuf.toNat (size.toNat - p.toNat))
    let r := Slab.afterCopy (asked size lbuf p.val - copied fault (asked size lbuf p.val))
      (Slab.sizeOf (bytes_to_do size lbuf p.val)) p.val bytes
    r.rval.toInt = n ∧ r.ppos.toInt = (p.toNat + n : Nat) ∧ p.toNat + n ≤ size.toNat := by
  intro n r
  have moved := @windowed_afterCopy size p lbuf fault bytes 0 small within (Nat.zero_le _)
  rw [← bytes_to_do_within small lbuf within] at moved
  have count : copied fault (Slab.sizeOf (bytes_to_do size lbuf p.val)).toNat = n := by
    rw [show (Slab.sizeOf (bytes_to_do size lbuf p.val)).toNat = asked size lbuf p.val from rfl,
      asked_within small lbuf within]
  have returns := moved.returns
  have advances := moved.advances
  have le := copied_le fault (min lbuf.toNat (size.toNat - p.toNat))
  rw [count] at returns advances
  refine ⟨?_, ?_, by omega⟩
  · simpa only [r, asked, count] using returns
  · rw [Int.natCast_add]
    simpa only [r, asked, count] using advances

/-- One call of the driver's functions from a position on the device. -/
theorem body_kept {φ : Type} (small : size.toNat < 2 ^ 31) {v : Int64} (within : Within size v)
    (ramdisk : Bytes) (op : Op φ) :
    let r := body size ramdisk v op
    Kept size.toNat ramdisk v.toInt.toNat r op ∧ (∀ w, r.new = some w → Within size w) ∧
      r.touched.1 + r.touched.2 ≤ size.toNat := by
  obtain ⟨p, rfl, place, le⟩ := within.filePos
  have start : p.val.toUInt64.toNat = p.toNat := p.toUInt64_toNat
  rw [← place]
  cases op with
  | read f fault buf lbuf =>
    obtain ⟨rval, ppos, inside⟩ := transfer_within small fault lbuf le
      (copyBytes buf 0 ramdisk p.toNat (copied fault (asked size lbuf p.val)))
    have count := asked_within small lbuf le
    simp only [body, mycdrv_generic_read, start, Kept]
    refine ⟨⟨rval, ⟨_, rfl, ppos⟩, ?_, trivial⟩, ?_, ?_⟩
    · rw [← count]
      rfl
    · rintro w hw
      cases hw
      exact ⟨Int.le_trans (Int.natCast_nonneg _) (Int.le_of_eq ppos.symm),
        Int.le_trans (Int.le_of_eq ppos) (Int.ofNat_le.mpr inside)⟩
    · rw [count]
      exact inside
  | write f fault buf lbuf =>
    obtain ⟨rval, ppos, inside⟩ := transfer_within small fault lbuf le
      (copy_from_user fault ramdisk p.toNat buf (asked size lbuf p.val))
    have count := asked_within small lbuf le
    have stored := (overwritten_bounds fault (asked size lbuf p.val)).2
    simp only [body, mycdrv_generic_write, start, Kept]
    refine ⟨⟨rval, ⟨_, rfl, ppos⟩, ?_⟩, ?_, by omega⟩
    · rw [← count]
      rfl
    · rintro w hw
      cases hw
      exact ⟨Int.le_trans (Int.natCast_nonneg _) (Int.le_of_eq ppos.symm),
        Int.le_trans (Int.le_of_eq ppos) (Int.ofNat_le.mpr inside)⟩
  | lseek f offset orig =>
    have seeks := lseek_kept small within offset orig
    have here : (p.toNat : Int) = p.val.toInt := p.toNat_cast
    simp only [body, Kept, here]
    cases target : seekTarget size.toNat p.val.toInt offset.toInt orig with
    | none =>
      rw [target] at seeks
      rw [seeks]
      exact ⟨⟨trivial, rfl, rfl⟩, (fun w hw => by cases hw), Nat.zero_le _⟩
    | some t =>
      rw [target] at seeks
      obtain ⟨r, value, goes⟩ := seeks
      rw [value]
      refine ⟨⟨trivial, goes, rfl⟩, fun w hw => ?_, Nat.zero_le _⟩
      cases hw
      have bounds := seekEnd_within size.toNat t
      exact ⟨by omega, by omega⟩

end

section
variable {φ ι : Type} [DecidableEq φ] [DecidableEq ι] {size : UInt64} {op : ι → Op φ}

/-- Every position, the files' and the threads', is on the device, and so is what has been moved. -/
structure Inv (size : UInt64) (s : State φ ι) : Prop where
  f_pos : ∀ f, Within size (s.f_pos f)
  loaded : ∀ i p, s.pc i = .run p → Within size p
  found : ∀ i v rval, s.pc i = .store (some v) rval → Within size v
  inside : ∀ a ∈ s.touched, a.1 + a.2 ≤ size.toNat

omit [DecidableEq φ] [DecidableEq ι] in
theorem inv_init (ramdisk : Bytes) : Inv size (init ramdisk : State φ ι) := by
  refine ⟨fun f => ⟨Int.le_refl _, ?_⟩, ?_, ?_, ?_⟩
  · exact Int.natCast_nonneg _
  · intro i p h
    cases h
  · intro i v rval h
    cases h
  · intro a h
    cases h

theorem inv_next (small : size.toNat < 2 ^ 31) {s : State φ ι} {a : Act ι} (h : Inv size s)
    (enabled : Enabled s a) : Inv size (next size op s a) := by
  have other : ∀ {i j : ι} {pc : Pc}, j ≠ i → Function.update s.pc i pc j = s.pc j :=
    fun hj => Function.update_of_ne hj ..
  cases a with
  | load i =>
    refine ⟨h.f_pos, fun j p hj => ?_, fun j v rval hj => ?_, h.inside⟩
    · by_cases own : j = i
      · subst own
        simp only [next, Function.update_self, Pc.run.injEq] at hj
        exact hj ▸ h.f_pos _
      · simp only [next, other own] at hj
        exact h.loaded j p hj
    · by_cases own : j = i
      · subst own
        simp only [next, Function.update_self, reduceCtorEq] at hj
      · simp only [next, other own] at hj
        exact h.found j v rval hj
  | run i =>
    obtain ⟨p, hp⟩ := enabled
    obtain ⟨_, goes, inside⟩ := body_kept small (h.loaded i p hp) s.ramdisk (op i)
    simp only [next, hp]
    refine ⟨h.f_pos, fun j q hj => ?_, fun j v rval hj => ?_, fun a ha => ?_⟩
    · by_cases own : j = i
      · subst own
        simp only [Function.update_self, reduceCtorEq] at hj
      · simp only [other own] at hj
        exact h.loaded j q hj
    · by_cases own : j = i
      · subst own
        simp only [Function.update_self, Pc.store.injEq] at hj
        exact goes v hj.1
      · simp only [other own] at hj
        exact h.found j v rval hj
    · rcases List.mem_cons.mp ha with rfl | ha
      · exact inside
      · exact h.inside a ha
  | store i =>
    obtain ⟨new, rval, hp⟩ := enabled
    simp only [next, hp]
    refine ⟨fun f => ?_, fun j q hj => ?_, fun j v r hj => ?_, h.inside⟩
    · cases new with
      | none => exact h.f_pos f
      | some v =>
        by_cases same : f = (op i).file
        · subst same
          simp only [Function.update_self]
          exact h.found i v rval hp
        · simp only [Function.update_of_ne same]
          exact h.f_pos f
    · by_cases own : j = i
      · subst own
        simp only [Function.update_self, reduceCtorEq] at hj
      · simp only [other own] at hj
        exact h.loaded j q hj
    · by_cases own : j = i
      · subst own
        simp only [Function.update_self, reduceCtorEq] at hj
      · simp only [other own] at hj
        exact h.found j v r hj

/-- Whatever the interleaving of the calls, and whichever threads share a file, no position leaves
the device, no byte outside the ramdisk is touched, and each call keeps its contract. -/
theorem calls_stay_within (PAGE_SIZE : PageSize) (op : ι → Op φ) (ramdisk : Bytes)
    {as : List (Act ι)} {s : State φ ι}
    (h : Run (machine (ramdisk_size PAGE_SIZE) op) (init ramdisk) as s) :
    let size := ramdisk_size PAGE_SIZE
    (∀ f, Within size (s.f_pos f)) ∧ (∀ a ∈ s.touched, a.1 + a.2 ≤ size.toNat) ∧
      ∀ i p, s.pc i = .run p → Within size p ∧
        Kept size.toNat s.ramdisk p.toInt.toNat (body size s.ramdisk p (op i)) (op i) := by
  intro size
  have small := ramdisk_size_small PAGE_SIZE
  have inv : Inv size s := run_invariant (I := Inv size) (inv_init ramdisk)
    (fun _ _ inv enabled => inv_next small inv enabled) h
  refine ⟨inv.f_pos, inv.inside, fun i p hp => ?_⟩
  have within := inv.loaded i p hp
  exact ⟨within, (body_kept small within s.ramdisk (op i)).1⟩

/-- Two threads share a file: one seeks behind the end while the other's write is under way. -/
theorem calls_stay_within_shared :
    let page : PageSize := ⟨4096, by decide⟩
    let op : Fin 2 → Op Unit := fun i =>
      if i = 0 then .write () none (fun _ => 7) 10 else .lseek () (-1) SEEK_SET
    let as : List (Act (Fin 2)) := [.load 0, .load 1, .run 1, .store 1, .run 0, .store 0]
    let s := (machine (ramdisk_size page) op).replay (init fun _ => 0) as
    Within (ramdisk_size page) (s.f_pos ()) ∧
      ∀ a ∈ s.touched, a.1 + a.2 ≤ (ramdisk_size page).toNat := by
  intro page op as s
  have run : Run (machine (ramdisk_size page) op) (init fun _ => 0) as s := by
    refine run_of_admits ⟨rfl, rfl, ⟨_, rfl⟩, ⟨_, _, rfl⟩, ⟨_, rfl⟩, ⟨_, _, rfl⟩, trivial⟩
  obtain ⟨f_pos, touched, _⟩ := calls_stay_within page op (fun _ => 0) run
  exact ⟨f_pos (), touched⟩

end

section
variable {size : UInt64}

theorem sizeOf_eq_zero {v : Int32} : (Slab.sizeOf v).toNat = 0 ↔ v.toInt = 0 := by
  by_cases negative : v.toInt < 0
  · have huge := Slab.sizeOf_negative negative
    omega
  · have value := (Slab.sizeOf_nonneg (Int.not_lt.mp negative)).1
    omega

/-- Behind the end `maxbytes` is zero only where its low 32 bits say so. -/
theorem maxbytes_past {p : FilePos} (small : size.toNat < 2 ^ 31) (past : size.toNat < p.toNat) :
    (size - p.val.toUInt64).toUInt32.toInt32.toInt = 0 ↔ 2 ^ 32 ∣ p.toNat - size.toNat := by
  have place : p.val.toUInt64.toNat = p.toNat := p.toUInt64_toNat
  have admitted := p.val.toInt_lt
  have here := p.toNat_cast
  have wraps : (size - p.val.toUInt64).toNat = 2 ^ 64 - (p.toNat - size.toNat) := by
    rw [UInt64.toNat_sub, place]
    omega
  have low : (size - p.val.toUInt64).toUInt32.toBitVec.toNat =
      (2 ^ 64 - (p.toNat - size.toNat)) % 2 ^ 32 := by
    rw [UInt32.toNat_toBitVec, UInt64.toNat_toUInt32, wraps]
  have value : (size - p.val.toUInt64).toUInt32.toInt32.toInt =
      if 2 * ((2 ^ 64 - (p.toNat - size.toNat)) % 2 ^ 32) < 2 ^ 32 then
        (((2 ^ 64 - (p.toNat - size.toNat)) % 2 ^ 32 : Nat) : Int) else
        ((2 ^ 64 - (p.toNat - size.toNat)) % 2 ^ 32 : Nat) - 2 ^ 32 := by
    rw [← low]
    exact BitVec.toInt_eq_toNat_cond _
  rw [value]
  split <;> omega

/-- What a call behind the end asks the user copy for is nothing in two cases only. -/
theorem asked_past {p : FilePos} {lbuf : UInt64} (small : size.toNat < 2 ^ 31)
    (admitted : lbuf.toNat < 2 ^ 31) (past : size.toNat < p.toNat) :
    asked size lbuf p.val = 0 ↔ lbuf.toNat = 0 ∨ 2 ^ 32 ∣ p.toNat - size.toNat := by
  have whole := (Slab.sizeOf_nonneg (v := lbuf.toUInt32.toInt32)
    (by rw [int_toInt admitted]; omega)).1
  rw [int_toInt admitted] at whole
  rw [← maxbytes_past small past, ← sizeOf_eq_zero]
  unfold asked bytes_to_do
  dsimp only
  split
  next less =>
    rw [gt_iff_lt, UInt64.lt_iff_toNat_lt] at less
    omega
  next less =>
    rw [gt_iff_lt, UInt64.lt_iff_toNat_lt] at less
    omega

/-- What a call behind the end touches is outside, and it touches nothing if nothing is asked for or
if its fault comes `early`. -/
theorem touched_inside_iff {p : FilePos} {lbuf : UInt64} {touched : Nat} {early : Prop}
    (small : size.toNat < 2 ^ 31) (admitted : lbuf.toNat < 2 ^ 31)
    (few : touched ≤ asked size lbuf p.val)
    (nothing : touched = 0 ↔ early ∨ asked size lbuf p.val = 0) :
    (∀ k, p.toNat ≤ k → k < p.toNat + touched → k < size.toNat) ↔
      p.toNat ≤ size.toNat ∨ lbuf = 0 ∨ early ∨ 2 ^ 32 ∣ p.toNat - size.toNat := by
  have none_asked : lbuf = 0 ↔ lbuf.toNat = 0 := by rw [← UInt64.toNat_inj]; rfl
  rw [none_asked]
  by_cases within : p.toNat ≤ size.toNat
  · refine iff_of_true (fun k _ hk => ?_) (Or.inl within)
    rw [asked_within small lbuf within] at few
    omega
  · have outside : (∀ k, p.toNat ≤ k → k < p.toNat + touched → k < size.toNat) ↔ touched = 0 := by
      constructor
      · intro inside
        by_contra moves
        have first := inside p.toNat (Nat.le_refl _) (by omega)
        omega
      · intro none k _ hk
        omega
    rw [outside, nothing, asked_past small admitted (Nat.lt_of_not_le within),
      or_iff_right within, or_left_comm]

/-- `pread` and `pwrite` hand their own position to the driver's functions, which look at it only
in `int` arithmetic. With a count that the VFS lets through they keep to the ramdisk exactly up to
its end, and behind it only if nothing is asked for, if the position is a multiple of `2 ^ 32` away,
or if the first byte faults and nothing is cleared for it. -/
theorem pread_inside_iff (PAGE_SIZE : PageSize) (φ : Type) (f : φ) (ramdisk buf : Bytes)
    (fault : Option Fault) (lbuf : UInt64) (admitted : lbuf.toNat < 2 ^ 31) (p : FilePos) :
    let size := ramdisk_size PAGE_SIZE
    let read := body size ramdisk p.val (.read f fault buf lbuf)
    let write := body size ramdisk p.val (.write f fault buf lbuf)
    ((∀ k, read.touched.1 ≤ k → k < read.touched.1 + read.touched.2 → k < size.toNat) ↔
      p.toNat ≤ size.toNat ∨ lbuf = 0 ∨ (∃ e ∈ fault, e.after = 0) ∨
        2 ^ 32 ∣ p.toNat - size.toNat) ∧
    ((∀ k, write.touched.1 ≤ k → k < write.touched.1 + write.touched.2 → k < size.toNat) ↔
      p.toNat ≤ size.toNat ∨ lbuf = 0 ∨ (∃ e ∈ fault, e.pads = false ∧ e.after = 0) ∨
        2 ^ 32 ∣ p.toNat - size.toNat) := by
  intro size read write
  have small : size.toNat < 2 ^ 31 := ramdisk_size_small PAGE_SIZE
  have starts : read.touched.1 = p.toNat ∧ write.touched.1 = p.toNat :=
    ⟨p.toUInt64_toNat, p.toUInt64_toNat⟩
  rw [starts.1, starts.2]
  exact ⟨touched_inside_iff small admitted (copied_le fault _) copied_eq_zero,
    touched_inside_iff small admitted (overwritten_bounds fault _).2 overwritten_eq_zero⟩

/-- Eight bytes at the end of a ramdisk of 64 KiB stay inside it, and a byte behind it reaches
out. -/
theorem pread_inside_iff_end :
    let page : PageSize := ⟨4096, by decide⟩
    let read := fun (lbuf : UInt64) (p : FilePos) =>
      (body (ramdisk_size page) (fun _ => 0) p.val (.read () none (fun _ => 0) lbuf)).touched
    (∀ k, (read 8 ⟨65536, by decide⟩).1 ≤ k →
      k < (read 8 ⟨65536, by decide⟩).1 + (read 8 ⟨65536, by decide⟩).2 → k < 65536) ∧
    ¬ ∀ k, (read 1 ⟨65537, by decide⟩).1 ≤ k →
      k < (read 1 ⟨65537, by decide⟩).1 + (read 1 ⟨65537, by decide⟩).2 → k < 65536 := by
  intro page read
  have at_end := pread_inside_iff page Unit () (fun _ => 0) (fun _ => 0) none 8 (by decide)
    ⟨65536, by decide⟩
  have behind := pread_inside_iff page Unit () (fun _ => 0) (fun _ => 0) none 1 (by decide)
    ⟨65537, by decide⟩
  exact ⟨at_end.1.mpr (by decide), fun inside => absurd (behind.1.mp inside) (by decide)⟩

end

end DeviceDriverEx.LabChar
