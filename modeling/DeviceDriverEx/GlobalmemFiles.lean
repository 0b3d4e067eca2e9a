import DeviceDriverEx.Globalmem

namespace DeviceDriverEx

/-- The device memories and the positions of the open files. -/
structure Files (φ δ : Type) where
  mem : δ → Bytes
  f_pos : φ → FilePos

/-- A call through file `f`. `ppos` is `some p` where the position does not come from the file,
as in `pread` and `pwrite`; `lseek` puts a file anywhere. -/
inductive Call (φ : Type)
  | read (f : φ) (ppos : Option FilePos) (buf : Bytes) (count : UInt64)
  | write (f : φ) (ppos : Option FilePos) (buf : Bytes) (count : UInt64)
  | ioctl (f : φ) (cmd : UInt32)
  | lseek (f : φ) (pos : FilePos)

theorem globalmem_read_nonneg (drv : Driver) (mem buf : Bytes) (count : UInt64) (p : FilePos) :
    0 ≤ (globalmem_read drv 0 none mem buf count p.val).ppos :=
  nonneg_of_toInt (n := p.toNat + windowLen p.toNat count)
    (by simpa using (globalmem_read_open drv mem buf count p).2.1)

theorem globalmem_write_nonneg (mem buf : Bytes) (count : UInt64) (p : FilePos) :
    0 ≤ (globalmem_write none mem buf count p.val).ppos :=
  nonneg_of_toInt (n := p.toNat + windowLen p.toNat count)
    (by simpa using (globalmem_write_ok mem buf count p).2.1)

section
variable {φ δ : Type} [DecidableEq φ] [DecidableEq δ]

def Files.ppos (s : Files φ δ) (f : φ) (ppos : Option FilePos) : FilePos := ppos.getD (s.f_pos f)

/-- Store a position back where it came from. -/
def Files.putPos (s : Files φ δ) (f : φ) (ppos : Option FilePos) (new : FilePos) : φ → FilePos :=
  match ppos with
  | none => Function.update s.f_pos f new
  | some _ => s.f_pos

/-- What a call returns; for a read `bytes` is the user's buffer afterwards. -/
structure Outcome where
  rval : Int64
  ppos : FilePos
  bytes : Bytes

/-- One call, with the wait gate open and no fault in the user copy. `dev f` is the device whose
`globalmem_dev` file `f` has in its `private_data`. -/
def Files.exec (drv : Driver) (dev : φ → δ) (s : Files φ δ) : Call φ → Files φ δ × Outcome
  | .read f ppos buf count =>
    let p := s.ppos f ppos
    let r := globalmem_read drv 0 none (s.mem (dev f)) buf count p.val
    let new : FilePos := ⟨r.ppos, globalmem_read_nonneg drv _ _ _ p⟩
    ({ s with f_pos := s.putPos f ppos new }, ⟨r.rval, new, r.bytes⟩)
  | .write f ppos buf count =>
    let p := s.ppos f ppos
    let r := globalmem_write none (s.mem (dev f)) buf count p.val
    let new : FilePos := ⟨r.ppos, globalmem_write_nonneg _ _ _ p⟩
    (⟨Function.update s.mem (dev f) r.bytes, s.putPos f ppos new⟩, ⟨r.rval, new, buf⟩)
  | .ioctl f cmd =>
    let r := globalmem_ioctl (s.mem (dev f)) cmd
    ({ s with mem := Function.update s.mem (dev f) r.2 }, ⟨r.1, s.f_pos f, fun _ => 0⟩)
  | .lseek f pos => ({ s with f_pos := Function.update s.f_pos f pos }, ⟨pos.val, pos, fun _ => 0⟩)

/-- After `globalmem_init`: `kzalloc` clears the devices, the files may stand anywhere. -/
def Files.loaded (f_pos : φ → FilePos) : Files φ δ := ⟨fun _ _ => 0, f_pos⟩

def Files.run (drv : Driver) (dev : φ → δ) (s : Files φ δ) (calls : List (Call φ)) : Files φ δ :=
  calls.foldl (fun s c => (s.exec drv dev c).1) s

/-- What a call made in state `s` does to the stores, by the words of the file law: a write
stores the first `min count (1024 - pos)` bytes at `pos`. -/
def Call.event (dev : φ → δ) (s : Files φ δ) : Call φ → List (StoreEvent δ)
  | .write f ppos buf count =>
    [.stored (dev f) (s.ppos f ppos).toNat buf (windowLen (s.ppos f ppos).toNat count)]
  | .ioctl f cmd => if cmd = MEM_CLEAR then [.cleared (dev f)] else []
  | _ => []

/-- The events of a run, the newest first. -/
def history (drv : Driver) (dev : φ → δ) (s : Files φ δ) :
    List (Call φ) → List (StoreEvent δ) → List (StoreEvent δ)
  | [], past => past
  | c :: calls, past => history drv dev (s.exec drv dev c).1 calls (c.event dev s ++ past)

/-- The file law for one call made in state `s` after the events `past`. -/
def FileLaw (dev : φ → δ) (past : List (StoreEvent δ)) (s s' : Files φ δ) (o : Outcome) :
    Call φ → Prop
  | .read f ppos buf count =>
    let p := (s.ppos f ppos).toNat
    let n := windowLen p count
    o.rval.toInt = n ∧ o.ppos.toNat = p + n ∧
      (∀ j < n, o.bytes j = lastStored past (dev f) (p + j)) ∧ (∀ j, n ≤ j → o.bytes j = buf j) ∧
      s'.mem = s.mem ∧
      s'.f_pos f = (if ppos.isNone then o.ppos else s.f_pos f) ∧ ∀ g ≠ f, s'.f_pos g = s.f_pos g
  | .write f ppos buf count =>
    let p := (s.ppos f ppos).toNat
    let n := windowLen p count
    o.rval.toInt = n ∧ o.ppos.toNat = p + n ∧
      (∀ j < n, s'.mem (dev f) (p + j) = buf j) ∧
      (∀ k, k < p ∨ p + n ≤ k → s'.mem (dev f) k = s.mem (dev f) k) ∧
      (∀ d ≠ dev f, s'.mem d = s.mem d) ∧
      s'.f_pos f = (if ppos.isNone then o.ppos else s.f_pos f) ∧ ∀ g ≠ f, s'.f_pos g = s.f_pos g
  | .ioctl f cmd =>
    (cmd = MEM_CLEAR → o.rval = 0 ∧ ∀ k < 1024, s'.mem (dev f) k = 0) ∧
      (cmd ≠ MEM_CLEAR → s'.mem = s.mem) ∧
      (∀ k, 1024 ≤ k → s'.mem (dev f) k = s.mem (dev f) k) ∧
      (∀ d ≠ dev f, s'.mem d = s.mem d) ∧ s'.f_pos = s.f_pos
  | .lseek f pos => s'.mem = s.mem ∧ s'.f_pos f = pos ∧ ∀ g ≠ f, s'.f_pos g = s.f_pos g

omit [DecidableEq δ] in
theorem putPos_own (s : Files φ δ) (f : φ) (ppos : Option FilePos) (new : FilePos) :
    s.putPos f ppos new f = if ppos.isNone then new else s.f_pos f := by
  cases ppos with
  | none => exact Function.update_self ..
  | some p => rfl

omit [DecidableEq δ] in
theorem putPos_other (s : Files φ δ) {f g : φ} (ppos : Option FilePos) (new : FilePos)
    (h : g ≠ f) : s.putPos f ppos new g = s.f_pos g := by
  cases ppos with
  | none => exact Function.update_of_ne h ..
  | some p => rfl

/-- Every device shows at each of its offsets what the events say was last stored there. -/
def Shows (past : List (StoreEvent δ)) (s : Files φ δ) : Prop :=
  ∀ d k, k < 1024 → s.mem d k = lastStored past d k

theorem shows_exec (drv : Driver) (dev : φ → δ) {past : List (StoreEvent δ)} {s : Files φ δ}
    (h : Shows past s) (c : Call φ) : Shows (c.event dev s ++ past) (s.exec drv dev c).1 := by
  intro d k hk
  cases c with
  | read f ppos buf count => exact h d k hk
  | lseek f pos => exact h d k hk
  | write f ppos buf count =>
    obtain ⟨_, _, bytes⟩ := globalmem_write_ok (s.mem (dev f)) buf count (s.ppos f ppos)
    by_cases hd : d = dev f
    · subst hd
      simp only [Files.exec, Call.event, List.singleton_append, Function.update_self, bytes,
        lastStored_stored]
      unfold copyBytes
      split
      next => rfl
      next => exact h (dev f) k hk
    · simp only [Files.exec, Call.event, List.singleton_append, Function.update_of_ne hd]
      rw [(lastStored_other (Ne.symm hd) _ _ _ _).1]
      exact h d k hk
  | ioctl f cmd =>
    by_cases hc : cmd = MEM_CLEAR
    · by_cases hd : d = dev f
      · subst hd
        simp only [Files.exec, Call.event, globalmem_ioctl, if_pos hc, List.singleton_append,
          Function.update_self, lastStored_cleared]
        exact if_pos hk
      · simp only [Files.exec, Call.event, if_pos hc, List.singleton_append,
          Function.update_of_ne hd]
        rw [(lastStored_other (Ne.symm hd) 0 (fun _ => 0) 0 _).2]
        exact h d k hk
    · simp only [Files.exec, Call.event, globalmem_ioctl, if_neg hc, List.nil_append,
        Function.update_eq_self]
      exact h d k hk

theorem shows_run (drv : Driver) (dev : φ → δ) {past : List (StoreEvent δ)} {s : Files φ δ}
    (h : Shows past s) (calls : List (Call φ)) :
    Shows (history drv dev s calls past) (s.run drv dev calls) := by
  induction calls generalizing s past with
  | nil => exact h
  | cons c calls ih => exact ih (shows_exec drv dev h c)

/-- One call keeps the law in any state that shows its past. -/
theorem fileLaw_exec (drv : Driver) (dev : φ → δ) {past : List (StoreEvent δ)} {s : Files φ δ}
    (h : Shows past s) (c : Call φ) :
    FileLaw dev past s (s.exec drv dev c).1 (s.exec drv dev c).2 c := by
  cases c with
  | read f ppos buf count =>
    have spec := globalmem_read_open drv (s.mem (dev f)) buf count (s.ppos f ppos)
    obtain ⟨rval, pos, bytes⟩ := spec
    have bound := windowLen_le (s.ppos f ppos).toNat count
    refine ⟨rval, ?_, ?_, ?_, rfl, putPos_own .., fun g hg => putPos_other s _ _ hg⟩
    · simp only [Files.exec, FilePos.toNat, pos]
      omega
    · intro j hj
      simp only [Files.exec, bytes]
      rw [copyBytes_front hj]
      exact h _ _ (by omega)
    · intro j hj
      simp only [Files.exec, bytes]
      exact copyBytes_outside (by omega)
  | write f ppos buf count =>
    obtain ⟨rval, pos, bytes⟩ := globalmem_write_ok (s.mem (dev f)) buf count (s.ppos f ppos)
    refine ⟨rval, ?_, ?_, ?_, ?_, putPos_own .., fun g hg => putPos_other s _ _ hg⟩
    · simp only [Files.exec, FilePos.toNat, pos]
      omega
    · intro j hj
      simp only [Files.exec, bytes, Function.update_self]
      rw [copyBytes_inside hj, Nat.zero_add]
    · intro k hk
      simp only [Files.exec, bytes, Function.update_self]
      exact copyBytes_outside hk
    · intro d hd
      exact Function.update_of_ne hd ..
  | ioctl f cmd =>
    refine ⟨?_, ?_, ?_, fun d hd => Function.update_of_ne hd .., rfl⟩
    · intro hc
      simp only [Files.exec, globalmem_ioctl, if_pos hc, Function.update_self]
      exact ⟨trivial, fun k hk => if_pos hk⟩
    · intro hc
      simp only [Files.exec, globalmem_ioctl, if_neg hc, Function.update_eq_self]
    · intro k hk
      simp only [Files.exec, globalmem_ioctl, Function.update_self]
      split
      · exact if_neg (Nat.not_lt.mpr hk)
      · rfl
  | lseek f pos => exact ⟨rfl, Function.update_self .., fun g hg => Function.update_of_ne hg ..⟩

/-- Every call of every sequence, whatever came before it, obeys the file law. -/
theorem byte_array_file_law (drv : Driver) (dev : φ → δ) (f_pos : φ → FilePos)
    (calls : List (Call φ)) (c : Call φ) :
    let s := (Files.loaded f_pos).run drv dev calls
    let past := history drv dev (Files.loaded f_pos) calls []
    FileLaw dev past s (s.exec drv dev c).1 (s.exec drv dev c).2 c := by
  intro s past
  have start : Shows ([] : List (StoreEvent δ)) (Files.loaded f_pos : Files φ δ) :=
    fun _ _ _ => rfl
  exact fileLaw_exec drv dev (shows_run drv dev start calls) c

end

end DeviceDriverEx
