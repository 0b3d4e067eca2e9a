import DeviceDriverEx.BitFields
import DeviceDriverEx.HeapLog
import DeviceDriverEx.Machine
import DeviceDriverEx.SlabGlobalmem

namespace DeviceDriverEx.IoctlVardata

def _IOC_WRITE : BitVec 2 := 1
def _IOC_READ : BitVec 2 := 2

/-- `#define MYIOC_TYPE 'k'` -/
def MYIOC_TYPE : BitVec 8 := 0x6b

/-- `_IOC` shifts its arguments and does not look at their size. -/
def _IOC (dir : BitVec 2) (type nr : BitVec 8) (size : BitVec 32) : BitVec 32 :=
  placeBits 32 30 dir ||| placeBits 32 8 type ||| placeBits 32 0 nr ||| placeBits 32 16 size

def _IOC_DIR (cmd : BitVec 32) : BitVec 2 := cmd.extractLsb' 30 2
def _IOC_TYPE (cmd : BitVec 32) : BitVec 8 := cmd.extractLsb' 8 8
def _IOC_SIZE (cmd : BitVec 32) : BitVec 14 := cmd.extractLsb' 16 14

/-- A call of `ioctl`: what `kmalloc` will find and what that memory holds, the byte of the caller's
at which a copy fails, and the caller's memory from `arg` on. -/
structure Call (ω : Type) where
  cmd : BitVec 32
  alloc : Option ω
  memory : Bytes
  fault : Option Fault
  user : Bytes

/-- `printed` is what the driver prints of its buffer. -/
structure Result (ω : Type) where
  rval : Int64
  user : Bytes
  printed : List UInt8
  log : List (HeapEvent ω)

/-- Nothing stands behind the pointer that `kmalloc` returns for no bytes, and `kfree` ignores it. -/
def kmalloc {ω : Type} (size : Nat) (alloc : Option ω) : Option (Option ω) :=
  if size = 0 then some none else alloc.map some

def allocated {ω : Type} (buffer : Option ω) (log : List (HeapEvent ω)) : List (HeapEvent ω) :=
  match buffer with
  | none => log
  | some o => .alloc o :: log

def kfree {ω : Type} (buffer : Option ω) (log : List (HeapEvent ω)) : List (HeapEvent ω) :=
  match buffer with
  | none => log
  | some o => .free (some o) :: log

section
variable {ω : Type}

/-- `rc` is what the copy has left over. -/
def mycdrv_unlocked_ioctl (c : Call ω) (log : List (HeapEvent ω)) : Result ω :=
  if _IOC_TYPE c.cmd ≠ MYIOC_TYPE then ⟨(-EINVAL).toInt64, c.user, [], log⟩
  else
    let size := (_IOC_SIZE c.cmd).toNat
    match kmalloc size c.alloc with
    | none => ⟨(-Slab.ENOMEM).toInt64, c.user, [], log⟩
    | some p =>
      let log := allocated p log
      let buffer := memset c.memory 88 size
      let moved := copied c.fault size
      if _IOC_DIR c.cmd = _IOC_WRITE then
        let buffer := copy_from_user c.fault buffer 0 c.user size
        ⟨Int64.ofNat (size - moved), c.user, (List.range size).map buffer, kfree p log⟩
      else if _IOC_DIR c.cmd = _IOC_READ then
        ⟨Int64.ofNat (size - moved), copyBytes c.user 0 buffer 0 moved,
          (List.range size).map buffer, kfree p log⟩
      else ⟨(-EINVAL).toInt64, c.user, [], log⟩

/-- One call after the other; each gets memory that nobody holds. -/
def machine [DecidableEq ω] : Machine (List (HeapEvent ω)) (Call ω) where
  Enabled log c := ∀ o, c.alloc = some o → live log o = false
  next log c := (mycdrv_unlocked_ioctl c log).log

/-- The driver takes the command for its own and the direction for neither of the two. -/
def Leaks (c : Call ω) : Prop :=
  _IOC_TYPE c.cmd = MYIOC_TYPE ∧ _IOC_SIZE c.cmd ≠ 0 ∧ _IOC_DIR c.cmd ≠ _IOC_WRITE ∧
    _IOC_DIR c.cmd ≠ _IOC_READ

/-- A transfer of `lbuf` bytes: all of them, in the right direction, and reported as such. -/
structure Served (dir : BitVec 2) (lbuf : Nat) (c : Call ω) (r : Result ω) : Prop where
  rval : r.rval = 0
  printed : r.printed.length = lbuf
  read : dir = _IOC_READ → r.user = memset c.user 88 lbuf
  write : dir = _IOC_WRITE → r.user = c.user ∧ r.printed = (List.range lbuf).map c.user

end

section
variable (dir : BitVec 2) (type nr : BitVec 8) (size : BitVec 32)

/-- The bits of the size that its field has no room for end up in the direction, or are lost. -/
theorem _IOC_DIR_IOC : _IOC_DIR (_IOC dir type nr size) = dir ||| size.extractLsb' 14 2 := by
  unfold _IOC_DIR _IOC
  rw [BitVec.extractLsb'_or, BitVec.extractLsb'_or, BitVec.extractLsb'_or,
    extract_place (k := 0) (by decide), extract_place_above (by decide),
    extract_place_above (by decide), show 30 = 16 + 14 from rfl, extract_place (by decide)]
  simp

theorem _IOC_TYPE_IOC : _IOC_TYPE (_IOC dir type nr size) = type := by
  unfold _IOC_TYPE _IOC
  rw [BitVec.extractLsb'_or, BitVec.extractLsb'_or, BitVec.extractLsb'_or,
    extract_place_below (by decide), extract_place (k := 0) (by decide),
    extract_place_above (by decide), extract_place_below (by decide)]
  simp

theorem _IOC_SIZE_IOC : _IOC_SIZE (_IOC dir type nr size) = size.setWidth 14 := by
  unfold _IOC_SIZE _IOC
  rw [BitVec.extractLsb'_or, BitVec.extractLsb'_or, BitVec.extractLsb'_or,
    extract_place_below (by decide), extract_place_above (by decide),
    extract_place_above (by decide), extract_place (k := 0) (by decide),
    extract_low]
  simp

end

section
variable {ω : Type} {c : Call ω} {log : List (HeapEvent ω)}

/-- A call whose command has one of the two directions, and which gets its buffer. -/
theorem ioctl_transfers {p : Option ω} (type : _IOC_TYPE c.cmd = MYIOC_TYPE)
    (memory : kmalloc (_IOC_SIZE c.cmd).toNat c.alloc = some p) {dir : BitVec 2}
    (way : _IOC_DIR c.cmd = dir) (either : dir = _IOC_WRITE ∨ dir = _IOC_READ) :
    let r := mycdrv_unlocked_ioctl c log
    r.log = kfree p (allocated p log) ∧
      (c.fault = none → Served dir (_IOC_SIZE c.cmd).toNat c r) := by
  unfold mycdrv_unlocked_ioctl
  rw [if_neg (not_not.mpr type)]
  dsimp only
  rw [memory, way]
  dsimp only
  rcases either with rfl | rfl
  · rw [if_pos rfl]
    refine ⟨rfl, fun present => ⟨?_, ?_, fun read => absurd read (by decide), fun _ => ⟨rfl, ?_⟩⟩⟩
    · rw [present, copied, Nat.sub_self]
      rfl
    · rw [List.length_map, List.length_range]
    · refine List.map_congr_left fun k hk => ?_
      rw [present, copy_from_user_whole, copyBytes_front (List.mem_range.mp hk), Nat.zero_add]
  · rw [if_neg (by decide), if_pos rfl]
    refine ⟨rfl, fun present => ⟨?_, ?_, fun _ => ?_, fun write => absurd write (by decide)⟩⟩
    · rw [present, copied, Nat.sub_self]
      rfl
    · rw [List.length_map, List.length_range]
    · funext k
      rw [present, copied]
      unfold copyBytes memset
      by_cases hk : k < (_IOC_SIZE c.cmd).toNat <;> simp [hk]

theorem ioctl_strange {p : Option ω} (type : _IOC_TYPE c.cmd = MYIOC_TYPE)
    (memory : kmalloc (_IOC_SIZE c.cmd).toNat c.alloc = some p)
    (write : _IOC_DIR c.cmd ≠ _IOC_WRITE) (read : _IOC_DIR c.cmd ≠ _IOC_READ) :
    mycdrv_unlocked_ioctl c log = ⟨(-EINVAL).toInt64, c.user, [], allocated p log⟩ := by
  unfold mycdrv_unlocked_ioctl
  rw [if_neg (not_not.mpr type)]
  dsimp only
  rw [memory]
  dsimp only
  rw [if_neg write, if_neg read]

/-- Whatever the call does, it prints no more than it has room for in the command. -/
theorem printed_le : (mycdrv_unlocked_ioctl c log).printed.length ≤ (_IOC_SIZE c.cmd).toNat := by
  unfold mycdrv_unlocked_ioctl
  split
  · exact Nat.zero_le _
  · dsimp only
    split
    · exact Nat.zero_le _
    · split_ifs
      · exact Nat.le_of_eq (by rw [List.length_map, List.length_range])
      · exact Nat.le_of_eq (by rw [List.length_map, List.length_range])
      · exact Nat.zero_le _

/-- A program that asks for `lbuf` bytes, all of which it has, is served exactly if their number
fits the 14 bits that a command has for it. -/
theorem vardata_served_iff {o : ω} {dir : BitVec 2} (either : dir = _IOC_WRITE ∨ dir = _IOC_READ)
    {nr : BitVec 8} {lbuf : BitVec 32} (command : c.cmd = _IOC dir MYIOC_TYPE nr lbuf)
    (memory : c.alloc = some o) (present : c.fault = none) :
    Served dir lbuf.toNat c (mycdrv_unlocked_ioctl c log) ↔ lbuf.toNat < 2 ^ 14 := by
  have size : _IOC_SIZE c.cmd = lbuf.setWidth 14 := by rw [command, _IOC_SIZE_IOC]
  constructor
  · intro served
    have le : (mycdrv_unlocked_ioctl c log).printed.length ≤ (_IOC_SIZE c.cmd).toNat := printed_le
    rw [served.printed] at le
    exact Nat.lt_of_le_of_lt le (_IOC_SIZE c.cmd).isLt
  · intro fits
    have whole : (_IOC_SIZE c.cmd).toNat = lbuf.toNat := by
      rw [size, BitVec.toNat_setWidth, Nat.mod_eq_of_lt fits]
    have clear : lbuf.extractLsb' 14 2 = 0 := by
      apply BitVec.eq_of_toNat_eq
      rw [BitVec.extractLsb'_toNat, Nat.shiftRight_eq_div_pow, Nat.div_eq_of_lt fits]
      rfl
    have way : _IOC_DIR c.cmd = dir := by
      rw [command, _IOC_DIR_IOC, clear]
      exact BitVec.or_zero
    obtain ⟨p, got⟩ : ∃ p, kmalloc (_IOC_SIZE c.cmd).toNat c.alloc = some p := by
      unfold kmalloc
      split_ifs
      · exact ⟨none, rfl⟩
      · exact ⟨some o, by rw [memory]; rfl⟩
    have type : _IOC_TYPE c.cmd = MYIOC_TYPE := by rw [command, _IOC_TYPE_IOC]
    rw [← whole]
    exact (ioctl_transfers type got way either).2 present

/-- 16 KiB and a byte, asked for with `_IOC_READ`: the driver sees a direction it does not know. -/
theorem vardata_served_iff_over :
    let c : Call Unit := ⟨_IOC _IOC_READ MYIOC_TYPE 1 16385, some (), fun _ => 0, none, fun _ => 0⟩
    ¬ Served _IOC_READ 16385 c (mycdrv_unlocked_ioctl c []) ∧
      (mycdrv_unlocked_ioctl c []).rval = (-EINVAL).toInt64 := by
  intro c
  have command : c.cmd = _IOC _IOC_READ MYIOC_TYPE 1 16385 := rfl
  have served : Served _IOC_READ 16385 c (mycdrv_unlocked_ioctl c []) ↔ _ :=
    vardata_served_iff (Or.inr rfl) command rfl rfl
  exact ⟨mt served.mp (by decide), by decide⟩

variable [DecidableEq ω]

omit [DecidableEq ω] in
theorem kmalloc_some {size : Nat} {alloc : Option ω} {o : ω}
    (got : kmalloc size alloc = some (some o)) : size ≠ 0 ∧ alloc = some o := by
  unfold kmalloc at got
  split_ifs at got with none
  · cases got
  · obtain ⟨o', rfl, same⟩ := Option.map_eq_some_iff.mp got
    exact ⟨none, same⟩

omit [DecidableEq ω] in
/-- A call that gets no memory, and does not need any or gives up, leaves the heap as it is. -/
theorem ioctl_log_same (other : ∀ o, kmalloc (_IOC_SIZE c.cmd).toNat c.alloc ≠ some (some o)) :
    (mycdrv_unlocked_ioctl c log).log = log := by
  unfold mycdrv_unlocked_ioctl
  split
  · rfl
  · dsimp only
    split
    · rfl
    next p got =>
      cases p with
      | none => split_ifs <;> rfl
      | some o => exact absurd got (other o)

theorem live_held {o : ω} (fresh : live log o = false) (x : ω) :
    live (kfree (some o) (allocated (some o) log)) x = true ↔ live log x = true := by
  by_cases hx : o = x
  · subst hx
    rw [kfree, live_free_self, fresh]
  · rw [kfree, live_free_of_ne (by simpa using hx), allocated, live_alloc_of_ne hx]

/-- What a call does to the heap, if it gets memory that nobody holds. -/
theorem ioctl_heap (fresh : ∀ o, c.alloc = some o → live log o = false)
    (disciplined : Disciplined log) :
    Disciplined (mycdrv_unlocked_ioctl c log).log ∧
      ∀ x, live (mycdrv_unlocked_ioctl c log).log x = true ↔
        live log x = true ∨ c.alloc = some x ∧ Leaks c := by
  by_cases got : ∃ o, kmalloc (_IOC_SIZE c.cmd).toNat c.alloc = some (some o)
  · obtain ⟨o, memory⟩ := got
    obtain ⟨some_, alloc⟩ := kmalloc_some memory
    have unused := fresh o alloc
    have size : _IOC_SIZE c.cmd ≠ 0 := fun zero => some_ (by rw [zero]; rfl)
    by_cases type : _IOC_TYPE c.cmd = MYIOC_TYPE
    · by_cases either : _IOC_DIR c.cmd = _IOC_WRITE ∨ _IOC_DIR c.cmd = _IOC_READ
      · have kept : ¬ Leaks c := fun leaks => either.elim leaks.2.2.1 leaks.2.2.2
        rw [(ioctl_transfers type memory rfl either).1]
        refine ⟨⟨⟨o, rfl, live_alloc_self o log⟩, unused, disciplined⟩, fun x => ?_⟩
        rw [live_held unused]
        exact ⟨Or.inl, fun either => either.resolve_right fun leaks => kept leaks.2⟩
      · obtain ⟨write, read⟩ := not_or.mp either
        have leaks : Leaks c := ⟨type, size, write, read⟩
        rw [ioctl_strange type memory write read]
        refine ⟨⟨unused, disciplined⟩, fun x => ?_⟩
        by_cases hx : o = x
        · subst hx
          exact iff_of_true (live_alloc_self o log) (Or.inr ⟨alloc, leaks⟩)
        · rw [allocated, live_alloc_of_ne hx, alloc, Option.some.injEq]
          exact ⟨Or.inl, fun either => either.resolve_right fun same => hx same.1⟩
    · have result : (mycdrv_unlocked_ioctl c log).log = log := by
        unfold mycdrv_unlocked_ioctl
        rw [if_pos type]
      rw [result]
      exact ⟨disciplined, fun x => by simp [Leaks, type]⟩
  · have none := not_exists.mp got
    rw [ioctl_log_same none]
    refine ⟨disciplined, fun x => ⟨Or.inl, fun either => either.resolve_right ?_⟩⟩
    rintro ⟨alloc, _, size, _⟩
    have some_ : (_IOC_SIZE c.cmd).toNat ≠ 0 := fun zero => size (BitVec.eq_of_toNat_eq zero)
    refine none x ?_
    unfold kmalloc
    rw [if_neg some_, alloc]
    rfl

/-- Over any sequence of calls no buffer is freed twice, and the ones that stay behind are those of
the calls with the driver's own type, some size, and a direction that is neither of the two. -/
theorem vardata_leaks_iff {as : List (Call ω)} (h : Run machine [] as log) :
    Disciplined log ∧ ∀ o, live log o = true ↔ ∃ c ∈ as, c.alloc = some o ∧ Leaks c := by
  induction h with
  | start => exact ⟨trivial, fun o => by simp [live]⟩
  | @next as log c _ fresh ih =>
    obtain ⟨disciplined, left⟩ := ih
    obtain ⟨after, now⟩ := ioctl_heap fresh disciplined
    refine ⟨after, fun o => (now o).trans ?_⟩
    rw [left o]
    simp only [List.mem_append, List.mem_singleton]
    constructor
    · rintro (⟨d, mem, leaks⟩ | leaks)
      · exact ⟨d, Or.inl mem, leaks⟩
      · exact ⟨c, Or.inr rfl, leaks⟩
    · rintro ⟨d, mem | rfl, leaks⟩
      · exact Or.inl ⟨d, mem, leaks⟩
      · exact Or.inr leaks

/-- A program asks for 16 KiB and a byte with `_IOC_READ`: the driver sees both directions at once,
and the buffer stays behind. -/
theorem vardata_leaks_iff_over :
    let c : Call Unit := ⟨_IOC _IOC_READ MYIOC_TYPE 1 16385, some (), fun _ => 0, none, fun _ => 0⟩
    live (machine.replay [] [c]) () = true := by
  intro c
  have run : Run machine [] [c] (machine.replay [] [c]) :=
    run_of_admits ⟨fun _ _ => rfl, trivial⟩
  have leaks : Leaks c := ⟨by decide, by decide, by decide, by decide⟩
  exact ((vardata_leaks_iff run).2 ()).mpr ⟨c, List.mem_singleton_self c, rfl, leaks⟩

end

end DeviceDriverEx.IoctlVardata
