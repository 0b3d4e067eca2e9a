import DeviceDriverEx.Globalmem
import DeviceDriverEx.Machine
import DeviceDriverEx.PinnedCopy

namespace DeviceDriverEx.Pinned

/-- A file of 18_LAB2, with the memory that its calls see. -/
structure File where
  mem : Memory
  f_pos : FilePos

/-- A call through the file, `rw` being 0 in a read and 1 in a write, and what `get_user_pages`
returned in it. -/
structure Access where
  r : Request
  rc : Int32
  rw : Int32

section
variable (PAGE_SIZE : UInt64)

/-- `globalmem_rw` is handed `ppos` and does not use it. -/
def File.access (s : File) (a : Access) : File × Outcome :=
  let out := globalmem_rw PAGE_SIZE a.r a.rc a.rw s.mem
  (⟨out.mem, s.f_pos⟩, out)

/-- The buffers are aligned, and no more pages are pinned than were asked for. -/
def File.Enabled (_ : File) (a : Access) : Prop :=
  PAGE_SIZE.toNat ∣ a.r.buf ∧ a.rc ≤ npages PAGE_SIZE a.r ∧ (a.rw = 0 ∨ a.rw = 1)

def File.machine : Machine File Access :=
  ⟨File.Enabled PAGE_SIZE, fun s a => (s.access PAGE_SIZE a).1⟩

instance (s : File) (a : Access) : Decidable ((File.machine PAGE_SIZE).Enabled s a) :=
  inferInstanceAs (Decidable (_ ∧ _ ∧ _))

/-- How many bytes of the ramdisk a call has moved. -/
def Outcome.moved (out : Outcome) : Nat := (copies out.calls).foldr (fun c n => c.2 + n) 0

/-- What a call owes to a file on a ramdisk of `size` bytes: it keeps to the bytes from the position
on, returns how many it moved, and moves the position by as many. -/
structure PositionKept (size : Nat) (s : File) (a : Access) : Prop where
  inside : ∀ c ∈ copies (s.access PAGE_SIZE a).2.calls, ∀ k, c.1 ≤ k → k < c.1 + c.2 →
    s.f_pos.toNat ≤ k ∧ k < min (s.f_pos.toNat + a.r.count.toNat) size
  returns : (s.access PAGE_SIZE a).2.rval.toInt = (s.access PAGE_SIZE a).2.moved
  advances : (s.access PAGE_SIZE a).1.f_pos.toNat = s.f_pos.toNat + (s.access PAGE_SIZE a).2.moved

/-- A read that returns its whole count, of the first bytes of the ramdisk. -/
def ReadsFirst (ramdisk : Bytes) (s : File) (a : Access) : Prop :=
  (s.access PAGE_SIZE a).2.rval.toInt = a.r.count.toNat ∧
    ∀ k < a.r.count.toNat, (s.access PAGE_SIZE a).2.mem.user (a.r.buf + k) = ramdisk k

variable {PAGE_SIZE}

/-- For a count of 0 the number of pages wraps, to 0 as an `int`. -/
theorem npages_zero {r : Request} (page : PAGE_SIZE.toNat ∣ 2 ^ 32) (none_asked : r.count = 0) :
    npages PAGE_SIZE r = 0 := by
  obtain ⟨d, hd⟩ := page
  have positive : 0 < PAGE_SIZE.toNat := Nat.pos_of_ne_zero fun zero => by
    rw [zero, Nat.zero_mul] at hd
    cases hd
  have whole : 2 ^ 64 - 1 = (PAGE_SIZE.toNat - 1) + PAGE_SIZE.toNat * (d * 2 ^ 32 - 1) := by
    have size : PAGE_SIZE.toNat * (d * 2 ^ 32) = 2 ^ 64 := by
      rw [← Nat.mul_assoc, ← hd, ← Nat.pow_add]
    have some_pages : 0 < d * 2 ^ 32 := Nat.pos_of_ne_zero fun zero => by
      rw [zero, Nat.mul_zero] at size
      cases size
    have fewer := Nat.mul_sub_one PAGE_SIZE.toNat (d * 2 ^ 32)
    have le := Nat.le_mul_of_pos_right PAGE_SIZE.toNat some_pages
    omega
  have quotient : (2 ^ 64 - 1) / PAGE_SIZE.toNat = d * 2 ^ 32 - 1 := by
    rw [whole, Nat.add_mul_div_left _ _ positive, Nat.div_eq_of_lt (by omega), Nat.zero_add]
  have divided : ((0 - 1 : UInt64) / PAGE_SIZE).toNat = d * 2 ^ 32 - 1 := by
    rw [UInt64.toNat_div, ← quotient]
    rfl
  have narrow : ((0 - 1 : UInt64) / PAGE_SIZE + 1).toUInt32 = 0 := by
    rw [← UInt32.toNat_inj, UInt64.toNat_toUInt32, UInt64.toNat_add, divided]
    change (d * 2 ^ 32 - 1 + 1) % 2 ^ 64 % 2 ^ 32 = 0
    have some_pages : 0 < d := Nat.pos_of_ne_zero fun zero => by
      rw [zero, Nat.mul_zero] at hd
      cases hd
    omega
  unfold npages
  rw [none_asked, narrow]
  rfl

/-- The position stays where it is and the whole count is returned, so that only a call for nothing
keeps to its position. -/
theorem position_kept_step (page : PAGE_SIZE.toNat ∣ 2 ^ 32) (size : Nat) {s : File} {a : Access}
    (enabled : s.Enabled PAGE_SIZE a) : PositionKept PAGE_SIZE size s a ↔ a.r.count = 0 := by
  have rval : (s.access PAGE_SIZE a).2.rval.toInt = a.r.count.toNat := globalmem_rw_rval
  constructor
  · intro kept
    have returns := kept.returns
    have advances := kept.advances
    change s.f_pos.toNat = s.f_pos.toNat + _ at advances
    rw [← UInt64.toNat_inj]
    change a.r.count.toNat = 0
    omega
  · intro none_asked
    have few := enabled.2.1
    rw [npages_zero page none_asked, Int32.le_iff_toInt_le] at few
    have no_pass : a.rc.toInt.toNat = 0 := Int.toNat_eq_zero.mpr few
    have untouched : copies (s.access PAGE_SIZE a).2.calls = [] := by
      change copies (globalmem_rw PAGE_SIZE a.r a.rc a.rw s.mem).calls = []
      rw [copies_rw, no_pass]
      rfl
    have moved : (s.access PAGE_SIZE a).2.moved = 0 := by
      unfold Outcome.moved
      rw [untouched]
      rfl
    refine ⟨fun c hc => ?_, ?_, ?_⟩
    · rw [untouched] at hc
      cases hc
    · rw [rval, moved, none_asked]
      rfl
    · rw [moved]
      rfl

theorem read_ramdisk {s : File} {a : Access} (read : a.rw = 0) :
    (s.access PAGE_SIZE a).1.mem.ramdisk = s.mem.ramdisk := by
  change (globalmem_rw PAGE_SIZE a.r a.rc a.rw s.mem).mem.ramdisk = _
  rw [globalmem_rw_mem, read]
  rfl

theorem reads_first_step (page : 0 < PAGE_SIZE) {s : File} {a : Access}
    (enabled : s.Enabled PAGE_SIZE a) (read : a.rw = 0)
    (pinned : a.rc.toInt = covering PAGE_SIZE a.r) : ReadsFirst PAGE_SIZE s.mem.ramdisk s a := by
  have law := @reads PAGE_SIZE a.r a.rc s.mem page enabled.1 pinned
  have same : (s.access PAGE_SIZE a).2 = globalmem_read PAGE_SIZE a.r a.rc s.mem := by
    change globalmem_rw PAGE_SIZE a.r a.rc a.rw s.mem = _
    rw [read]
    rfl
  unfold ReadsFirst
  rw [same]
  exact ⟨law.rval, law.read⟩

end

/-- In every run of calls through one file, whatever `get_user_pages` pins, the calls keep to the
position and to the end of the ramdisk exactly if none of them asks for a byte. In a run of reads
that do, with their pages pinned, each one returns its whole count of the same first bytes, so that
none ever returns 0. -/
theorem position_kept_iff (PAGE_SIZE : UInt64) (page : PAGE_SIZE.toNat ∣ 2 ^ 32) (order : Nat)
    {s t : File} {as : List Access} (h : Run (File.machine PAGE_SIZE) s as t) :
    (Meets (File.machine PAGE_SIZE) (PositionKept PAGE_SIZE (PAGE_SIZE.toNat <<< order)) s as ↔
      ∀ a ∈ as, a.r.count = 0) ∧
    ((∀ a ∈ as, a.rw = 0 ∧ 0 < a.r.count ∧ a.rc.toInt = covering PAGE_SIZE a.r) →
      Meets (File.machine PAGE_SIZE) (ReadsFirst PAGE_SIZE s.mem.ramdisk) s as) := by
  refine ⟨⟨fun kept a ha => ?_, fun nothing pre a post u split run => ?_⟩, fun reading => ?_⟩
  · obtain ⟨pre, post, split⟩ := List.append_of_mem ha
    obtain ⟨u, before, enabled⟩ := run_before (split ▸ h)
    exact (position_kept_step page _ enabled).mp (kept pre a post u split before)
  · obtain ⟨v, before, enabled⟩ := run_before (split ▸ h)
    cases run_unique run before
    exact (position_kept_step page _ enabled).mpr (nothing a (by simp [split]))
  · have positive : 0 < PAGE_SIZE := UInt64.lt_iff_toNat_lt.mpr
      (Nat.pos_of_ne_zero fun zero => by simp [zero] at page)
    intro pre a post u split run
    obtain ⟨v, before, enabled⟩ := run_before (split ▸ h)
    cases run_unique run before
    obtain ⟨read, _, pinned⟩ := reading a (by simp [split])
    have only_reads : Meets (File.machine PAGE_SIZE) (fun _ b => b.rw = 0) s pre :=
      fun first b rest _ same _ => (reading b (by simp [split, same])).1
    have kept : u.mem.ramdisk = s.mem.ramdisk :=
      run_invariant_of_meets (I := fun w => w.mem.ramdisk = s.mem.ramdisk) rfl
        (fun _ _ same _ read => (read_ramdisk read).trans same) run only_reads
    exact kept ▸ reads_first_step positive enabled read pinned

/-- Two reads of one byte, and a call for nothing. -/
theorem position_kept_iff_once :
    let s : File := ⟨⟨fun k => UInt8.ofNat k, fun _ => 0⟩, ⟨0, by decide⟩⟩
    Meets (File.machine 4096) (ReadsFirst 4096 s.mem.ramdisk) s
        [⟨⟨8192, 1, by decide⟩, 1, 0⟩, ⟨⟨8192, 1, by decide⟩, 1, 0⟩] ∧
      Meets (File.machine 4096) (PositionKept 4096 (4096 <<< 0)) s
        [⟨⟨8192, 0, by decide⟩, 0, 1⟩] := by
  intro s
  have reads : Run (File.machine 4096) s
      [⟨⟨8192, 1, by decide⟩, 1, 0⟩, ⟨⟨8192, 1, by decide⟩, 1, 0⟩] _ := run_of_admits (by decide)
  have writes : Run (File.machine 4096) s [⟨⟨8192, 0, by decide⟩, 0, 1⟩] _ :=
    run_of_admits (by decide)
  have twice := position_kept_iff 4096 (by decide) 0 reads
  have nothing := position_kept_iff 4096 (by decide) 0 writes
  exact ⟨twice.2 (by decide), nothing.1.mpr (by decide)⟩

/-- A read of the whole ramdisk and one more byte returns that many and leaves the position at 0. -/
theorem position_left_behind :
    let s : File := ⟨⟨fun _ => 0, fun _ => 0⟩, ⟨0, by decide⟩⟩
    let a : Access := ⟨⟨8192, 4097, by decide⟩, 2, 0⟩
    (s.access 4096 a).2.rval = 4097 ∧ (s.access 4096 a).1.f_pos.toNat = 0 ∧
      (4096, 1) ∈ copies (s.access 4096 a).2.calls ∧
      ¬ Meets (File.machine 4096) (PositionKept 4096 (4096 <<< 0)) s [a] := by
  intro s a
  refine ⟨rfl, by decide, by decide, fun kept => ?_⟩
  have step : PositionKept 4096 (4096 <<< 0) s a := kept [] a [] s rfl Run.start
  have inside := step.inside (4096, 1) (by decide) 4096 (by decide) (by decide)
  revert inside
  decide

end DeviceDriverEx.Pinned
