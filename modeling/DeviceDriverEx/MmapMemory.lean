import DeviceDriverEx.GlobalmemWindow

namespace DeviceDriverEx.Mmap

section
variable {δ : Type} {PAGE_SIZE : PageSize}

/-- What `mmap` owes to a device whose ramdisk is the frame `f`, for a request `vma` it has
answered with the mapping `m`: nothing but that frame is mapped, the request ends with the device,
and after whatever was stored through the mapping or through the file, a byte of the mapping is
the byte that a read at its position returns. -/
structure OneMemory (PAGE_SIZE : PageSize) (d : δ) (f : Nat) (vma : Vma PAGE_SIZE) (m : Mapping) :
    Prop where
  own : ∀ i < m.pages PAGE_SIZE, m.frame i = f
  within : vma.vm_pgoff.toNat + m.pages PAGE_SIZE ≤ 1
  agree : ∀ (s : State δ) (as : List Access), s.ramdisk d = f →
    ∀ k < m.len.toNat, ∀ p : FilePos, p.toNat = vma.vm_pgoff.toNat * PAGE_SIZE.bytes.toNat + k →
    let t := history PAGE_SIZE d m s as
    ∀ buf, let r := globalmem_read PAGE_SIZE t d none buf 1 p.val
      r.rval.toInt = 1 ∧ r.bytes 0 = t.phys (m.address PAGE_SIZE k)

/-- A request that `mmap` does not refuse keeps this. -/
def MmapKept (d : δ) (f : Nat) (vma : Vma PAGE_SIZE) (err : Int32) : Prop :=
  (globalmem_mmap vma err).1 = 0 →
    ∃ m, (globalmem_mmap vma err).2 = some m ∧ OneMemory PAGE_SIZE d f vma m

theorem access_ramdisk (d : δ) (m : Mapping) (s : State δ) (a : Access) :
    (access PAGE_SIZE d m s a).ramdisk = s.ramdisk := by
  cases a with
  | ioctl cmd =>
    simp only [access, globalmem_ioctl]
    split_ifs <;> rfl
  | _ => rfl

theorem history_ramdisk (d : δ) (m : Mapping) (s : State δ) (as : List Access) :
    (history PAGE_SIZE d m s as).ramdisk = s.ramdisk := by
  unfold history
  induction as generalizing s with
  | nil => rfl
  | cons a as ih => rw [List.foldl_cons, ih, access_ramdisk]

theorem read_one (s : State δ) (d : δ) (buf : Bytes) (p : FilePos)
    (inside : p.toNat < PAGE_SIZE.bytes.toNat) :
    let r := globalmem_read PAGE_SIZE s d none buf 1 p.val
    r.rval.toInt = 1 ∧ r.bytes 0 = s.phys (frameAt PAGE_SIZE (s.ramdisk d) + p.toNat) := by
  intro r
  obtain ⟨window, _, bytes⟩ := (mmap_window_iff PAGE_SIZE s d none buf 1 p).1.mpr
    (Nat.le_of_lt inside)
  have one : (clampCount PAGE_SIZE p.val.toUInt64 1).toNat = 1 := by
    have asks := window.asks
    have unit : (1 : UInt64).toNat = 1 := rfl
    omega
  rw [copied, one] at bytes
  refine ⟨?_, ?_⟩
  · rw [window.returns, copied, one]
    rfl
  · rw [bytes]
    exact copyBytes_front (by omega)

/-- Where one page of the ramdisk's own frame is mapped, the two ways to the memory agree. -/
theorem same_memory {m : Mapping} {s : State δ} {d : δ} (own : m.pfn.toNat = s.ramdisk d) {k : Nat}
    (inside : k < PAGE_SIZE.bytes.toNat) (p : FilePos) (hp : p.toNat = k) (as : List Access)
    (buf : Bytes) :
    let t := history PAGE_SIZE d m s as
    let r := globalmem_read PAGE_SIZE t d none buf 1 p.val
    r.rval.toInt = 1 ∧ r.bytes 0 = t.phys (m.address PAGE_SIZE k) := by
  intro t r
  obtain ⟨rval, byte⟩ := read_one t d buf p (hp ▸ inside)
  refine ⟨rval, ?_⟩
  have address : m.address PAGE_SIZE k = frameAt PAGE_SIZE (t.ramdisk d) + p.toNat := by
    rw [Mapping.address, Mapping.frame, Nat.div_eq_of_lt inside, Nat.mod_eq_of_lt inside,
      Nat.add_zero, own, hp, show t.ramdisk = s.ramdisk from history_ramdisk d m s as]
  rw [address]
  exact byte

theorem globalmem_mmap_failed {vma : Vma PAGE_SIZE} {err : Int32} (h : err ≠ 0) :
    (globalmem_mmap vma err).1 = -EAGAIN := by
  simp only [globalmem_mmap, remap_pfn_range, if_neg h]
  rw [if_pos h]

theorem globalmem_mmap_done (vma : Vma PAGE_SIZE) :
    globalmem_mmap vma 0 =
      (0, some ⟨vma.vm_start, vma.vm_pgoff, vma.vm_end - vma.vm_start⟩) := rfl

theorem Vma.pages_pos (vma : Vma PAGE_SIZE) :
    0 < (vma.vm_end - vma.vm_start).toNat / PAGE_SIZE.bytes.toNat := by
  have order := UInt64.lt_iff_toNat_lt.mp vma.nonempty
  have len : (vma.vm_end - vma.vm_start).toNat = vma.vm_end.toNat - vma.vm_start.toNat :=
    UInt64.toNat_sub_of_le _ _ (UInt64.le_of_lt vma.nonempty)
  have page : 0 < PAGE_SIZE.bytes.toNat := UInt64.lt_iff_toNat_lt.mp PAGE_SIZE.pos
  exact Nat.div_pos (Nat.le_of_dvd (by omega) vma.aligned) page

/-- The request's offset reaches the kernel as a frame number: `mmap` keeps what it owes in exactly
the cases where the kernel refuses, or the one page asked for at offset 0 is frame 0 and that is the
ramdisk. -/
theorem mmap_kept_iff (d : δ) (f : Nat) (vma : Vma PAGE_SIZE) (err : Int32) :
    MmapKept d f vma err ↔
      err ≠ 0 ∨ vma.vm_pgoff = 0 ∧ vma.vm_end - vma.vm_start = PAGE_SIZE.bytes ∧ f = 0 := by
  have page : 0 < PAGE_SIZE.bytes.toNat := UInt64.lt_iff_toNat_lt.mp PAGE_SIZE.pos
  constructor
  · intro h
    by_cases failed : err = 0
    · subst failed
      obtain ⟨m, hm, one⟩ := h rfl
      cases hm
      have within : vma.vm_pgoff.toNat +
          (vma.vm_end - vma.vm_start).toNat / PAGE_SIZE.bytes.toNat ≤ 1 := one.within
      have pages := vma.pages_pos
      have offset : vma.vm_pgoff.toNat = 0 := by omega
      have single : (vma.vm_end - vma.vm_start).toNat / PAGE_SIZE.bytes.toNat = 1 := by omega
      have first : vma.vm_pgoff.toNat + 0 = f := one.own 0 pages
      refine Or.inr ⟨UInt64.toNat_inj.mp offset, UInt64.toNat_inj.mp ?_, by omega⟩
      rw [← Nat.div_mul_cancel vma.aligned, single, Nat.one_mul]
    · exact Or.inl failed
  · intro h done
    by_cases failed : err = 0
    · subst failed
      obtain failed | ⟨offset, single, frame⟩ := h
      · exact absurd rfl failed
      · refine ⟨_, rfl, ?_⟩
        have pages : (vma.vm_end - vma.vm_start).toNat / PAGE_SIZE.bytes.toNat = 1 := by
          rw [single, Nat.div_self page]
        have start : vma.vm_pgoff.toNat = 0 := by
          rw [offset]
          rfl
        refine ⟨?_, ?_, ?_⟩
        · intro i hi
          have first : i < 1 := pages ▸ hi
          change vma.vm_pgoff.toNat + i = f
          omega
        · change vma.vm_pgoff.toNat + (vma.vm_end - vma.vm_start).toNat / _ ≤ 1
          omega
        · intro s as hs k hk p hp t buf
          have inside : k < PAGE_SIZE.bytes.toNat := single ▸ hk
          have own : vma.vm_pgoff.toNat = s.ramdisk d := by omega
          refine same_memory own inside p ?_ as buf
          rw [hp, start, Nat.zero_mul, Nat.zero_add]
    · rw [globalmem_mmap_failed failed] at done
      cases done

end

/-- The mapping that `tester.c` asks for, one page at offset 0. Unless the ramdisk is frame 0 the
store shows nowhere in the file. -/
theorem mmap_shows_frame_zero :
    let page : PageSize := ⟨4096, by decide, by decide⟩
    let vma : Vma page := ⟨0x10000, 0x11000, 0, by decide, by decide⟩
    let s : State Unit := ⟨fun _ => 0, fun _ => 7⟩
    let m : Mapping := ⟨0x10000, 0, 4096⟩
    let t := history page () m s [.store 0 1]
    globalmem_mmap vma 0 = (0, some m) ∧ m.frame 0 = 0 ∧ t.phys (m.address page 0) = 1 ∧
      (globalmem_read page t () none (fun _ => 9) 1 0).bytes 0 = 0 ∧ ¬ MmapKept () 7 vma 0 := by
  intro page vma s m t
  have stored : t.phys (m.address page 0) = 1 := Function.update_self ..
  have inside : (⟨0, by decide⟩ : FilePos).toNat < page.bytes.toNat := by decide
  have read := (read_one t () (fun _ => 9) ⟨0, by decide⟩ inside).2
  have elsewhere : frameAt page (t.ramdisk ()) + (⟨0, by decide⟩ : FilePos).toNat ≠
      m.address page 0 := by decide
  have kept := Function.update_of_ne elsewhere (1 : UInt8) s.phys
  have mapped : globalmem_mmap vma 0 = (0, some m) := by
    have len : vma.vm_end - vma.vm_start = 4096 := by decide
    rw [globalmem_mmap_done, len]
  refine ⟨mapped, rfl, stored, read.trans kept, fun h => ?_⟩
  have done : (globalmem_mmap vma 0).1 = 0 := by rw [mapped]
  obtain ⟨shown, hm, one⟩ := h done
  rw [mapped] at hm
  have frame : shown.frame 0 = 7 := one.own 0 (by rw [← Option.some.inj hm]; decide)
  rw [← Option.some.inj hm] at frame
  cases frame

end DeviceDriverEx.Mmap
