import DeviceDriverEx.LabCharCalls
import DeviceDriverEx.NirqCounters

namespace DeviceDriverEx.PutGet

/-- `put_user` and `get_user` fail from the first byte on that is not there. -/
def absent (fault : Option Fault) (k : Nat) : Bool :=
  match fault with
  | none => false
  | some f => decide (f.after ≤ k)

theorem int_step {n m : Int32} (h : n < m) : (n + 1).toInt = n.toInt + 1 := by
  have lt := Int32.lt_iff_toInt_lt.mp h
  have last := m.toInt_lt
  exact atomic_inc_toInt (by omega)

/-- The `while` loop of the two calls, which moves one byte in each turn. `missed` is what a failing
`put_user` or `get_user` does to the byte it was to store to. -/
def transfer (fault : Option Fault) (missed : Bytes → Nat → Bytes) (bytes_to_do : Int32) (at_ : Nat)
    (src : Bytes) (from_ : Nat) (nbytes : Int32) (dst : Bytes) : Int32 × Bytes :=
  if nbytes < bytes_to_do then
    let k := nbytes.toInt.toNat
    if absent fault k then (nbytes, missed dst (at_ + k))
    else transfer fault missed bytes_to_do at_ src from_ (nbytes + 1)
      (Function.update dst (at_ + k) (src (from_ + k)))
  else (nbytes, dst)
termination_by (bytes_to_do.toInt - nbytes.toInt).toNat
decreasing_by
  next h _ =>
    have step := int_step h
    have lt := Int32.lt_iff_toInt_lt.mp h
    omega

/-- `put_user` leaves the user's byte alone if it fails. -/
def mycdrv_read (ramdisk_size : UInt64) (fault : Option Fault) (ramdisk buf : Bytes) (lbuf : UInt64)
    (ppos : Int64) : CallResult :=
  let r := transfer fault (fun dst _ => dst) (LabChar.bytes_to_do ramdisk_size lbuf ppos) 0 ramdisk
    ppos.toUInt64.toNat 0 buf
  ⟨r.1.toInt64, ppos + r.1.toInt64, r.2⟩

/-- `get_user` stores 0 if it fails. -/
def mycdrv_write (ramdisk_size : UInt64) (fault : Option Fault) (ramdisk buf : Bytes) (lbuf : UInt64)
    (ppos : Int64) : CallResult :=
  let r := transfer fault (fun dst k => Function.update dst k 0)
    (LabChar.bytes_to_do ramdisk_size lbuf ppos) ppos.toUInt64.toNat buf 0 0 ramdisk
  ⟨r.1.toInt64, ppos + r.1.toInt64, r.2⟩

theorem absent_before {fault : Option Fault} {n k : Nat} (h : k < copied fault n) :
    absent fault k = false := by
  cases fault with
  | none => rfl
  | some f =>
    have le := Nat.min_le_left f.after n
    exact decide_eq_false (by change k < min f.after n at h; omega)

theorem absent_at {fault : Option Fault} {n : Nat} (short : copied fault n < n) :
    absent fault (copied fault n) = true := by
  cases fault with
  | none => exact absurd short (Nat.lt_irrefl n)
  | some f =>
    change min f.after n < n at short
    exact decide_eq_true (by change f.after ≤ min f.after n; omega)

section
variable {fault : Option Fault} {missed : Bytes → Nat → Bytes} {bytes_to_do : Int32} {n : Nat}

theorem counted_lt (whole : bytes_to_do.toInt = n) {k : Nat} (small : k ≤ n) :
    Int32.ofNat k < bytes_to_do ↔ k < n := by
  have last := bytes_to_do.toInt_lt
  rw [Int32.lt_iff_toInt_lt, Int32.toInt_ofNat_of_lt (by omega), whole]
  omega

/-- The end of the loop: the request is through, or a byte is not there. -/
theorem transfer_last (whole : bytes_to_do.toInt = n) (at_ : Nat) (src : Bytes) (from_ : Nat)
    (dst : Bytes) :
    transfer fault missed bytes_to_do at_ src from_ (Int32.ofNat (copied fault n)) dst =
      (Int32.ofNat (copied fault n),
        if copied fault n < n then missed dst (at_ + copied fault n) else dst) := by
  have le := copied_le fault n
  have last := bytes_to_do.toInt_lt
  rw [transfer]
  by_cases short : copied fault n < n
  · have here : (Int32.ofNat (copied fault n)).toInt.toNat = copied fault n := by
      rw [Int32.toInt_ofNat_of_lt (by omega), Int.toNat_natCast]
    rw [if_pos ((counted_lt whole le).mpr short), if_pos short]
    dsimp only
    rw [here, absent_at short, if_pos rfl]
  · rw [if_neg (mt (counted_lt whole le).mp short), if_neg short]

/-- The loop copies what a single copy would, one byte after the other. -/
theorem transfer_copies (whole : bytes_to_do.toInt = n) (at_ : Nat) (src : Bytes) (from_ : Nat)
    (dst : Bytes) {k : Nat} (done : k ≤ copied fault n) :
    transfer fault missed bytes_to_do at_ src from_ (Int32.ofNat k)
        (copyBytes dst at_ src from_ k) =
      transfer fault missed bytes_to_do at_ src from_ (Int32.ofNat (copied fault n))
        (copyBytes dst at_ src from_ (copied fault n)) := by
  obtain ⟨rest, split⟩ := Nat.exists_eq_add_of_le done
  induction rest generalizing k with
  | zero => rw [split, Nat.add_zero]
  | succ rest ih =>
    have le := copied_le fault n
    have last := bytes_to_do.toInt_lt
    have here : (Int32.ofNat k).toInt.toNat = k := by
      rw [Int32.toInt_ofNat_of_lt (by omega), Int.toNat_natCast]
    rw [transfer, if_pos ((counted_lt whole (by omega)).mpr (by omega))]
    dsimp only
    rw [here, absent_before (show k < copied fault n by omega), if_neg nofun, ← copyBytes_succ,
      show Int32.ofNat k + 1 = Int32.ofNat (k + 1) from atomic_inc_ofNat k]
    exact ih (by omega) (by omega)

theorem transfer_eq (whole : bytes_to_do.toInt = n) (at_ : Nat) (src : Bytes) (from_ : Nat)
    (dst : Bytes) : transfer fault missed bytes_to_do at_ src from_ 0 dst =
      (Int32.ofNat (copied fault n),
        if copied fault n < n then
          missed (copyBytes dst at_ src from_ (copied fault n)) (at_ + copied fault n)
        else copyBytes dst at_ src from_ (copied fault n)) := by
  have start := @transfer_copies fault missed bytes_to_do n whole at_ src from_ dst 0 (Nat.zero_le _)
  rw [copyBytes_zero] at start
  exact start.trans (transfer_last whole at_ src from_ _)

end

section
variable {ramdisk_size lbuf : UInt64} {ppos : Int64}

/-- A count below `INT_MAX` leaves something between 0 and it to do, whatever the position. -/
theorem bytes_to_do_nonneg (capped : lbuf.toNat < 2 ^ 31) :
    0 ≤ (LabChar.bytes_to_do ramdisk_size lbuf ppos).toInt := by
  unfold LabChar.bytes_to_do
  dsimp only
  split
  · rw [int_toInt capped]
    exact Int.natCast_nonneg _
  next less =>
    by_contra negative
    have wide := Slab.sizeOf_negative (Int.not_le.mp negative)
    rw [gt_iff_lt, UInt64.lt_iff_toNat_lt] at less
    omega

/-- A call that has moved `moved` of the bytes it asked for, and reports them. -/
theorem afterCopy_moved {asked : UInt64} {moved : Nat} (le : moved ≤ asked.toNat)
    (small : asked.toNat < 2 ^ 31) (bytes : Bytes) :
    Slab.afterCopy (asked.toNat - moved) asked ppos bytes =
      ⟨(Int32.ofNat moved).toInt64, ppos + (Int32.ofNat moved).toInt64, bytes⟩ := by
  have left : (UInt64.ofNat (asked.toNat - moved)).toNat = asked.toNat - moved :=
    UInt64.toNat_ofNat_of_lt' (by change _ < 2 ^ 64; omega)
  have count : (asked - UInt64.ofNat (asked.toNat - moved)).toNat = moved := by
    rw [UInt64.toNat_sub_of_le _ _ (UInt64.le_iff_toNat_le.mpr (by omega)), left]
    omega
  have rval : (asked - UInt64.ofNat (asked.toNat - moved)).toUInt32.toInt32 = Int32.ofNat moved := by
    rw [← Int32.toInt_inj, int_toInt (by omega), count, Int32.toInt_ofNat_of_lt (by omega)]
  unfold Slab.afterCopy
  rw [rval]

/-- Byte by byte the driver does what the copying one does in one go. A read leaves the same behind
in every case. So does a write that gets all its bytes; one that does not reports as many. Where the
copying one clears all that was missing or nothing, it clears the first of them. -/
theorem putget_agrees (capped : lbuf.toNat < 2 ^ 31) (fault : Option Fault) (ramdisk buf : Bytes) :
    let n := LabChar.asked ramdisk_size lbuf ppos
    let write := mycdrv_write ramdisk_size fault ramdisk buf lbuf ppos
    let generic := LabChar.mycdrv_generic_write ramdisk_size fault ramdisk buf lbuf ppos
    mycdrv_read ramdisk_size fault ramdisk buf lbuf ppos =
      LabChar.mycdrv_generic_read ramdisk_size fault ramdisk buf lbuf ppos ∧
    (copied fault n = n → write = generic) ∧
    (copied fault n < n → write.rval = generic.rval ∧ write.ppos = generic.ppos ∧
      let first := ppos.toUInt64.toNat + copied fault n
      ∀ k, write.bytes k =
        if k = first then 0 else if first < k ∧ k < ppos.toUInt64.toNat + n then ramdisk k
        else generic.bytes k) := by
  have counts := Slab.sizeOf_nonneg (@bytes_to_do_nonneg ramdisk_size lbuf ppos capped)
  have whole : (LabChar.bytes_to_do ramdisk_size lbuf ppos).toInt =
    LabChar.asked ramdisk_size lbuf ppos := counts.1.symm
  have le := copied_le fault (LabChar.asked ramdisk_size lbuf ppos)
  have moved := fun bytes => @afterCopy_moved ppos _ _ le counts.2 bytes
  have write : mycdrv_write ramdisk_size fault ramdisk buf lbuf ppos = _ :=
    congrArg (fun r : Int32 × Bytes => CallResult.mk r.1.toInt64 (ppos + r.1.toInt64) r.2)
      (transfer_eq whole ppos.toUInt64.toNat buf 0 ramdisk)
  have generic : LabChar.mycdrv_generic_write ramdisk_size fault ramdisk buf lbuf ppos = _ :=
    moved _
  refine ⟨?_, fun all => ?_, fun short => ?_⟩
  · have read : mycdrv_read ramdisk_size fault ramdisk buf lbuf ppos = _ :=
      congrArg (fun r : Int32 × Bytes => CallResult.mk r.1.toInt64 (ppos + r.1.toInt64) r.2)
        (transfer_eq whole 0 ramdisk ppos.toUInt64.toNat buf)
    rw [read, show LabChar.mycdrv_generic_read ramdisk_size fault ramdisk buf lbuf ppos = _ from
      moved _]
    dsimp only
    rw [ite_self]
    rfl
  · have stored := overwritten_bounds fault (LabChar.asked ramdisk_size lbuf ppos)
    have moves : copy_from_user fault ramdisk ppos.toUInt64.toNat buf
        (LabChar.asked ramdisk_size lbuf ppos) = _ :=
      copy_from_user_eq_iff.mpr (clearsNothing_of_kept (by omega))
    rw [write, generic]
    dsimp only
    rw [if_neg (show ¬ _ < LabChar.asked ramdisk_size lbuf ppos by omega)]
    exact congrArg _ moves.symm
  · have stored := overwritten_bounds fault (LabChar.asked ramdisk_size lbuf ppos)
    rw [write, generic, if_pos short]
    refine ⟨rfl, rfl, fun k => ?_⟩
    dsimp only
    by_cases missing : k = ppos.toUInt64.toNat + copied fault (LabChar.asked ramdisk_size lbuf ppos)
    · rw [if_pos missing, missing, Function.update_self]
    rw [if_neg missing, Function.update_of_ne missing]
    split
    next behind => exact copyBytes_outside (by omega)
    next visible =>
      have off : ¬ (ppos.toUInt64.toNat + copied fault (LabChar.asked ramdisk_size lbuf ppos) ≤ k ∧
          k < ppos.toUInt64.toNat + overwritten fault (LabChar.asked ramdisk_size lbuf ppos)) := by
        omega
      exact (copy_from_user_off off).symm

/-- Two of three bytes are missing: one is reported, a 0 stands where the second belongs, and the
third is left alone. -/
theorem putget_agrees_short :
    let write := mycdrv_write 16 (some ⟨1, true⟩) (fun _ => 7) (fun _ => 9) 3 3
    write.rval = 1 ∧ write.ppos = 4 ∧ write.bytes 3 = 9 ∧ write.bytes 4 = 0 ∧ write.bytes 5 = 7 := by
  intro write
  have short : copied (some ⟨1, true⟩) (LabChar.asked 16 3 3) < LabChar.asked 16 3 3 := by decide
  obtain ⟨rval, ppos, bytes⟩ :=
    (putget_agrees (by decide) (some ⟨1, true⟩) (fun _ => 7) (fun _ => 9)).2.2 short
  exact ⟨rval.trans (by decide), ppos.trans (by decide), (bytes 3).trans (by decide),
    (bytes 4).trans (by decide), (bytes 5).trans (by decide)⟩

end

end DeviceDriverEx.PutGet
