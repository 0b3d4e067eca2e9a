import DeviceDriverEx.PinnedCopy

namespace DeviceDriverEx.Pinned

section
variable {PAGE_SIZE : UInt64} {r : Request} {rc : Int32}

theorem pageStart_le : pageStart PAGE_SIZE r ≤ r.buf := Nat.div_mul_le_self ..

theorem pageStart_eq_iff : pageStart PAGE_SIZE r = r.buf ↔ PAGE_SIZE.toNat ∣ r.buf :=
  ⟨fun whole => ⟨_, whole.symm.trans (Nat.mul_comm ..)⟩, pageStart_aligned⟩

theorem aligned_of_writes (page : 0 < PAGE_SIZE) (asked : 0 < r.count)
    (pinned : rc.toInt = covering PAGE_SIZE r)
    (h : ∀ mem, Writes r mem (globalmem_write PAGE_SIZE r rc mem)) : PAGE_SIZE.toNat ∣ r.buf := by
  let mem : Memory := ⟨fun _ => 0, fun a => if a = r.buf then 1 else 0⟩
  have first := (h mem).written 0 (toNat_pos asked)
  rw [globalmem_write_mem page pinned] at first
  change copyBytes _ 0 mem.user (pageStart PAGE_SIZE r) r.count.toNat 0 = _ at first
  rw [copyBytes_front (toNat_pos asked), Nat.add_zero, Nat.add_zero] at first
  by_contra unaligned
  have apart : pageStart PAGE_SIZE r ≠ r.buf := fun same => unaligned (pageStart_eq_iff.mp same)
  simp [mem, apart] at first

theorem aligned_of_reads (page : 0 < PAGE_SIZE) (asked : 0 < r.count)
    (pinned : rc.toInt = covering PAGE_SIZE r)
    (h : ∀ mem, Reads r mem (globalmem_read PAGE_SIZE r rc mem)) : PAGE_SIZE.toNat ∣ r.buf := by
  let mem : Memory := ⟨fun _ => 1, fun _ => 0⟩
  by_contra unaligned
  have apart : pageStart PAGE_SIZE r ≠ r.buf := fun same => unaligned (pageStart_eq_iff.mp same)
  have before : pageStart PAGE_SIZE r < r.buf := Nat.lt_of_le_of_ne pageStart_le apart
  have outside := (h mem).outside (pageStart PAGE_SIZE r) (Or.inl before)
  rw [globalmem_read_mem page pinned] at outside
  have stored := @copyBytes_inside mem.user mem.ramdisk (pageStart PAGE_SIZE r) 0 r.count.toNat 0
    (toNat_pos asked)
  rw [Nat.add_zero] at stored
  cases stored.symm.trans outside

end

/-- With the pages pinned that the driver asks for, a call moves the requested number of bytes, but
from or to the start of the page that `buf` lies in. It keeps to the caller's buffer, in either
direction, exactly if that is where the buffer begins. -/
theorem rw_in_buffer_iff (PAGE_SIZE : UInt64) (page : 0 < PAGE_SIZE) (r : Request)
    (asked : 0 < r.count) (rc : Int32) (pinned : rc.toInt = covering PAGE_SIZE r) :
    (npages PAGE_SIZE r = rc ∧ ∀ mem,
      (globalmem_write PAGE_SIZE r rc mem).mem = { mem with
        ramdisk := copyBytes mem.ramdisk 0 mem.user (pageStart PAGE_SIZE r) r.count.toNat } ∧
      (globalmem_read PAGE_SIZE r rc mem).mem = { mem with
        user := copyBytes mem.user (pageStart PAGE_SIZE r) mem.ramdisk 0 r.count.toNat }) ∧
    ((∀ mem, Writes r mem (globalmem_write PAGE_SIZE r rc mem)) ↔ PAGE_SIZE.toNat ∣ r.buf) ∧
    ((∀ mem, Reads r mem (globalmem_read PAGE_SIZE r rc mem)) ↔ PAGE_SIZE.toNat ∣ r.buf) := by
  have width := rc.toInt_lt
  have asks : npages PAGE_SIZE r = rc := by
    rw [← Int32.toInt_inj, npages_toInt page asked (by omega), pinned]
  refine ⟨⟨asks, fun mem => ⟨globalmem_write_mem page pinned,
    globalmem_read_mem page pinned⟩⟩, ?_, ?_⟩
  · exact ⟨aligned_of_writes page asked pinned, fun aligned _ => writes page aligned pinned⟩
  · exact ⟨aligned_of_reads page asked pinned, fun aligned _ => reads page aligned pinned⟩

theorem rw_in_buffer_iff_aligned :
    let r : Request := ⟨8192, 4097, by decide⟩
    ∀ mem, Writes r mem (globalmem_write 4096 r 2 mem) ∧
      Reads r mem (globalmem_read 4096 r 2 mem) := by
  intro r mem
  obtain ⟨_, written, read⟩ := rw_in_buffer_iff 4096 (by decide) r (by decide) 2 (by decide)
  exact ⟨written.mpr (by decide) mem, read.mpr (by decide) mem⟩

/-- One byte at an address that is not the first of its page: a read overwrites the byte in front of
the buffer, and a write takes that one. -/
theorem rw_outside_buffer :
    let r : Request := ⟨4097, 1, by decide⟩
    let mem : Memory := ⟨fun _ => 5, fun a => if a = 4097 then 7 else 0⟩
    ((globalmem_read 4096 r 1 mem).mem.user 4096 = 5 ∧
      (globalmem_read 4096 r 1 mem).mem.user 4097 = 7 ∧
      ¬ Reads r mem (globalmem_read 4096 r 1 mem)) ∧
    (globalmem_write 4096 r 1 mem).mem.ramdisk 0 = 0 ∧
      ¬ Writes r mem (globalmem_write 4096 r 1 mem) := by
  intro r mem
  have overwritten : (globalmem_read 4096 r 1 mem).mem.user 4096 = 5 := by decide
  have taken : (globalmem_write 4096 r 1 mem).mem.ramdisk 0 = 0 := by decide
  refine ⟨⟨overwritten, by decide, fun h => ?_⟩, taken, fun h => ?_⟩
  · have kept := h.outside 4096 (by decide)
    rw [overwritten] at kept
    revert kept
    decide
  · have written := h.written 0 (by decide)
    rw [taken] at written
    revert written
    decide

end DeviceDriverEx.Pinned
