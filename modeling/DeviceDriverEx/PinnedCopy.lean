import DeviceDriverEx.PinnedGlobalmem
import Mathlib.Algebra.Group.Nat.Defs
import Mathlib.Data.List.Nodup

namespace DeviceDriverEx.Pinned

section
variable {PAGE_SIZE : UInt64} {r : Request} {rc rw : Int32} {mem : Memory}

/-- The number of pages that cover a request. -/
def covering (PAGE_SIZE : UInt64) (r : Request) : Nat :=
  (r.count.toNat + PAGE_SIZE.toNat - 1) / PAGE_SIZE.toNat

theorem toNat_pos {n : UInt64} (h : 0 < n) : 0 < n.toNat := UInt64.lt_iff_toNat_lt.mp h

theorem covering_eq (page : 0 < PAGE_SIZE) (asked : 0 < r.count) :
    covering PAGE_SIZE r = (r.count.toNat - 1) / PAGE_SIZE.toNat + 1 := by
  have bytes := toNat_pos asked
  have moved : r.count.toNat + PAGE_SIZE.toNat - 1 = r.count.toNat - 1 + PAGE_SIZE.toNat := by omega
  unfold covering
  rw [moved, Nat.add_div_right _ (toNat_pos page)]

theorem covering_pos (page : 0 < PAGE_SIZE) (asked : 0 < r.count) : 0 < covering PAGE_SIZE r := by
  rw [covering_eq page asked]
  exact Nat.succ_pos _

theorem last_eq (page : 0 < PAGE_SIZE) (asked : 0 < r.count) :
    last PAGE_SIZE r = (r.count.toNat - 1) % PAGE_SIZE.toNat + 1 := by
  have within := Nat.mod_lt (r.count.toNat - 1) (toNat_pos page)
  have width := PAGE_SIZE.toNat_lt
  unfold last
  rw [UInt64.toNat_add, UInt64.toNat_mod, pred_toNat asked, UInt64.toNat_one]
  exact Nat.mod_eq_of_lt (by omega)

/-- `npages` counts the pages of the request while their number is an `int`. -/
theorem npages_toInt (page : 0 < PAGE_SIZE) (asked : 0 < r.count)
    (fits : covering PAGE_SIZE r < 2 ^ 31) : (npages PAGE_SIZE r).toInt = covering PAGE_SIZE r := by
  have whole := covering_eq page asked
  have pages : ((r.count - 1) / PAGE_SIZE + 1).toNat = covering PAGE_SIZE r := by
    rw [UInt64.toNat_add, UInt64.toNat_div, pred_toNat asked, UInt64.toNat_one, whole]
    exact Nat.mod_eq_of_lt (by omega)
  unfold npages
  rw [int_toInt (by omega), pages]

/-- The bytes before the last page and those of the last page are all of them. -/
theorem count_eq (page : 0 < PAGE_SIZE) (asked : 0 < r.count) :
    (covering PAGE_SIZE r - 1) * PAGE_SIZE.toNat + last PAGE_SIZE r = r.count.toNat := by
  have bytes := toNat_pos asked
  have split := Nat.div_add_mod (r.count.toNat - 1) PAGE_SIZE.toNat
  rw [covering_eq page asked, last_eq page asked, Nat.add_sub_cancel, Nat.mul_comm]
  omega

theorem covering_covers (page : 0 < PAGE_SIZE) (asked : 0 < r.count) :
    (covering PAGE_SIZE r - 1) * PAGE_SIZE.toNat < r.count.toNat ∧
      r.count.toNat ≤ covering PAGE_SIZE r * PAGE_SIZE.toNat := by
  have whole := count_eq page asked
  have size := last_eq page asked
  have within := Nat.mod_lt (r.count.toNat - 1) (toNat_pos page)
  have one_more := Nat.succ_mul (covering PAGE_SIZE r - 1) PAGE_SIZE.toNat
  rw [Nat.succ_eq_add_one, Nat.sub_add_cancel (covering_pos page asked)] at one_more
  omega

/-- How many leading bytes a call moves when `rc` pages are pinned. -/
def moved (PAGE_SIZE : UInt64) (r : Request) (rc : Int32) : Nat :=
  if 0 < rc.toInt then (rc.toInt.toNat - 1) * PAGE_SIZE.toNat + last PAGE_SIZE r else 0

/-- A call moves so many leading bytes, all at once as far as the memory shows. -/
theorem globalmem_rw_mem : (globalmem_rw PAGE_SIZE r rc rw mem).mem =
    transfer rw (pageStart PAGE_SIZE r) 0 (moved PAGE_SIZE r rc) mem := by
  unfold globalmem_rw moved
  by_cases pinned : 0 < rc.toInt
  · have passes : rc.toInt = ((rc.toInt.toNat - 1 : Nat) : Int) + 1 := by omega
    rw [if_pos pinned, loop_last passes]
  · have none_pinned : rc.toInt.toNat = 0 := by omega
    rw [if_neg pinned, none_pinned, transfer_zero]
    rfl

theorem globalmem_rw_rval : (globalmem_rw PAGE_SIZE r rc rw mem).rval.toInt = r.count.toNat :=
  ssize_toInt r.admitted

theorem moved_all (page : 0 < PAGE_SIZE) (pinned : rc.toInt = covering PAGE_SIZE r) :
    moved PAGE_SIZE r rc = r.count.toNat := by
  unfold moved
  rw [pinned, Int.toNat_natCast]
  by_cases asked : 0 < r.count
  · have positive := covering_pos page asked
    rw [if_pos (by omega)]
    exact count_eq page asked
  · have nothing : r.count.toNat = 0 := Nat.le_zero.mp (Nat.not_lt.mp fun h =>
      asked (UInt64.lt_iff_toNat_lt.mpr h))
    have bytes := toNat_pos page
    have none_pinned : covering PAGE_SIZE r = 0 := by
      unfold covering
      rw [nothing]
      exact Nat.div_eq_of_lt (by omega)
    rw [none_pinned, nothing]
    rfl

theorem released_pageCalls {page kbuf nbytes : Nat} :
    released (pageCalls rw page kbuf nbytes) = [page] := by
  unfold pageCalls released
  split <;> rfl

theorem copies_pageCalls {page kbuf nbytes : Nat} (c : Nat × Nat)
    (h : c ∈ copies (pageCalls rw page kbuf nbytes)) : c = (kbuf, nbytes) := by
  unfold pageCalls copies at h
  split at h
  · exact List.mem_singleton.mp h
  · cases h

theorem released_append {first rest : List Call} :
    released (first ++ rest) = released first ++ released rest :=
  List.filterMap_append

theorem copies_append {first rest : List Call} :
    copies (first ++ rest) = copies first ++ copies rest :=
  List.filterMap_append

theorem released_loop (n : Nat) : released (loop PAGE_SIZE r rc rw mem n).calls =
    (List.range n).map (pages PAGE_SIZE r) := by
  induction n with
  | zero => rfl
  | succ n ih =>
    rw [loop_succ, List.range_succ, List.map_append]
    change released (_ ++ pageCalls rw _ _ _) = _
    rw [released_append, ih, released_pageCalls]
    rfl

theorem released_rw : released (globalmem_rw PAGE_SIZE r rc rw mem).calls =
    (List.range rc.toInt.toNat).map (pages PAGE_SIZE r) := by
  unfold globalmem_rw
  rw [released_append, released_append, released_loop]
  exact List.append_nil _

theorem copies_rw : copies (globalmem_rw PAGE_SIZE r rc rw mem).calls =
    copies (loop PAGE_SIZE r rc rw mem rc.toInt.toNat).calls := by
  unfold globalmem_rw
  rw [copies_append, copies_append]
  exact List.append_nil _

/-- With all pages pinned no copy leaves the first `count` bytes of the ramdisk. -/
theorem copies_inside (page : 0 < PAGE_SIZE) (asked : 0 < r.count)
    (pinned : rc.toInt = covering PAGE_SIZE r) (c : Nat × Nat)
    (h : c ∈ copies (globalmem_rw PAGE_SIZE r rc rw mem).calls) : c.1 + c.2 ≤ r.count.toNat := by
  have whole := count_eq page asked
  have positive := covering_pos page asked
  have passes : rc.toInt = ((covering PAGE_SIZE r - 1 : Nat) : Int) + 1 := by omega
  rw [copies_rw, loop_last passes, copies_append] at h
  obtain early | final := List.mem_append.mp h
  · rw [loop_full (by omega)] at early
    unfold copies at early
    rw [List.filterMap_flatMap] at early
    obtain ⟨i, hi, hc⟩ := List.mem_flatMap.mp early
    have inside := Nat.mul_le_mul_right PAGE_SIZE.toNat (Nat.succ_le_of_lt (List.mem_range.mp hi))
    rw [copies_pageCalls c hc]
    rw [Nat.succ_mul] at inside
    change i * PAGE_SIZE.toNat + PAGE_SIZE.toNat ≤ r.count.toNat
    omega
  · rw [copies_pageCalls c final]
    exact Nat.le_of_eq whole

/-- What a write is for. -/
structure Writes (r : Request) (mem : Memory) (out : Outcome) : Prop where
  rval : out.rval.toInt = r.count.toNat
  user : out.mem.user = mem.user
  written : ∀ k < r.count.toNat, out.mem.ramdisk k = mem.user (r.buf + k)
  behind : ∀ k, r.count.toNat ≤ k → out.mem.ramdisk k = mem.ramdisk k

/-- What a read is for. -/
structure Reads (r : Request) (mem : Memory) (out : Outcome) : Prop where
  rval : out.rval.toInt = r.count.toNat
  ramdisk : out.mem.ramdisk = mem.ramdisk
  read : ∀ k < r.count.toNat, out.mem.user (r.buf + k) = mem.ramdisk k
  outside : ∀ a, a < r.buf ∨ r.buf + r.count.toNat ≤ a → out.mem.user a = mem.user a

/-- The pages of the buffer are released once each and no others, and no copy leaves the
ramdisk. -/
structure PagesOnce (PAGE_SIZE : UInt64) (order : Nat) (r : Request) (out : Outcome) : Prop where
  nodup : (released out.calls).Nodup
  all : ∀ page, page ∈ released out.calls ↔
    r.buf / PAGE_SIZE.toNat ≤ page ∧ page < r.buf / PAGE_SIZE.toNat + covering PAGE_SIZE r
  inside : ∀ c ∈ copies out.calls, c.1 + c.2 ≤ PAGE_SIZE.toNat <<< order

theorem pages_once {order : Nat} (page : 0 < PAGE_SIZE) (asked : 0 < r.count)
    (fits : r.count.toNat ≤ PAGE_SIZE.toNat <<< order)
    (pinned : rc.toInt = covering PAGE_SIZE r) :
    PagesOnce PAGE_SIZE order r (globalmem_rw PAGE_SIZE r rc rw mem) := by
  refine ⟨?_, fun frame => ?_, fun c hc => ?_⟩
  · rw [released_rw]
    refine List.Nodup.map (fun i j same => ?_) List.nodup_range
    unfold pages at same
    omega
  · rw [released_rw, pinned, Int.toNat_natCast, List.mem_map]
    unfold pages
    constructor
    · rintro ⟨i, hi, rfl⟩
      have bound := List.mem_range.mp hi
      omega
    · rintro ⟨first, behind⟩
      exact ⟨frame - r.buf / PAGE_SIZE.toNat, List.mem_range.mpr (by omega), by omega⟩
  · exact Nat.le_trans (copies_inside page asked pinned c hc) fits

/-- With all pages pinned a call moves all bytes, from or to the start of the first page. -/
theorem globalmem_write_mem (page : 0 < PAGE_SIZE) (pinned : rc.toInt = covering PAGE_SIZE r) :
    (globalmem_write PAGE_SIZE r rc mem).mem =
    { mem with
      ramdisk := copyBytes mem.ramdisk 0 mem.user (pageStart PAGE_SIZE r) r.count.toNat } := by
  change (globalmem_rw PAGE_SIZE r rc 1 mem).mem = _
  rw [globalmem_rw_mem, moved_all page pinned]
  rfl

theorem globalmem_read_mem (page : 0 < PAGE_SIZE) (pinned : rc.toInt = covering PAGE_SIZE r) :
    (globalmem_read PAGE_SIZE r rc mem).mem =
    { mem with
      user := copyBytes mem.user (pageStart PAGE_SIZE r) mem.ramdisk 0 r.count.toNat } := by
  change (globalmem_rw PAGE_SIZE r rc 0 mem).mem = _
  rw [globalmem_rw_mem, moved_all page pinned]
  rfl

theorem writes (page : 0 < PAGE_SIZE) (aligned : PAGE_SIZE.toNat ∣ r.buf)
    (pinned : rc.toInt = covering PAGE_SIZE r) :
    Writes r mem (globalmem_write PAGE_SIZE r rc mem) := by
  have memory := @globalmem_write_mem PAGE_SIZE r rc mem page pinned
  rw [pageStart_aligned aligned] at memory
  refine ⟨globalmem_rw_rval, by rw [memory], fun k hk => ?_, fun k hk => ?_⟩
  · rw [memory]
    exact copyBytes_front hk
  · rw [memory]
    exact copyBytes_outside (by omega)

theorem reads (page : 0 < PAGE_SIZE) (aligned : PAGE_SIZE.toNat ∣ r.buf)
    (pinned : rc.toInt = covering PAGE_SIZE r) :
    Reads r mem (globalmem_read PAGE_SIZE r rc mem) := by
  have memory := @globalmem_read_mem PAGE_SIZE r rc mem page pinned
  rw [pageStart_aligned aligned] at memory
  refine ⟨globalmem_rw_rval, by rw [memory], fun k hk => ?_, fun a ha => ?_⟩
  · have inside := @copyBytes_inside mem.user mem.ramdisk r.buf 0 r.count.toNat k hk
    rw [memory]
    rwa [Nat.zero_add] at inside
  · rw [memory]
    exact copyBytes_outside ha

end

/-- With all pages of an aligned buffer pinned, the loop copies exactly the requested bytes, and what
was written is read back, by whatever buffer. -/
theorem rw_copies_request (PAGE_SIZE : UInt64) (order : Nat) (page : 0 < PAGE_SIZE) (r : Request)
    (asked : 0 < r.count) (fits : r.count.toNat ≤ PAGE_SIZE.toNat <<< order)
    (aligned : PAGE_SIZE.toNat ∣ r.buf) (rc : Int32) (pinned : rc.toInt = covering PAGE_SIZE r)
    (mem : Memory) :
    ((npages PAGE_SIZE r).toInt = covering PAGE_SIZE r ∧
      (covering PAGE_SIZE r - 1) * PAGE_SIZE.toNat < r.count.toNat ∧
      r.count.toNat ≤ covering PAGE_SIZE r * PAGE_SIZE.toNat) ∧
    Writes r mem (globalmem_write PAGE_SIZE r rc mem) ∧
    Reads r mem (globalmem_read PAGE_SIZE r rc mem) ∧
    PagesOnce PAGE_SIZE order r (globalmem_write PAGE_SIZE r rc mem) ∧
    PagesOnce PAGE_SIZE order r (globalmem_read PAGE_SIZE r rc mem) ∧
    ∀ (back : Request) (user : Bytes), back.count = r.count → PAGE_SIZE.toNat ∣ back.buf →
      ∀ k < r.count.toNat, (globalmem_read PAGE_SIZE back rc
        ⟨(globalmem_write PAGE_SIZE r rc mem).mem.ramdisk, user⟩).mem.user (back.buf + k) =
          mem.user (r.buf + k) := by
  have width := rc.toInt_lt
  have wrote := @writes PAGE_SIZE r rc mem page aligned pinned
  refine ⟨⟨npages_toInt page asked (by omega), covering_covers page asked⟩, wrote,
    reads page aligned pinned, pages_once page asked fits pinned,
    pages_once page asked fits pinned, fun back user same aligned' k hk => ?_⟩
  have pinned' : rc.toInt = covering PAGE_SIZE back := by
    unfold covering at pinned ⊢
    rw [pinned, same]
  have again := @reads PAGE_SIZE back rc
    ⟨(globalmem_write PAGE_SIZE r rc mem).mem.ramdisk, user⟩ page aligned' pinned'
  rw [again.read k (same ▸ hk)]
  exact wrote.written k hk

/-- One byte more than a page, to and from different buffers. -/
theorem rw_copies_request_two_pages :
    let r : Request := ⟨8192, 4097, by decide⟩
    ∀ k < r.count.toNat, (globalmem_read 4096 ⟨0, 4097, by decide⟩ 2
      ⟨(globalmem_write 4096 r 2 ⟨fun _ => 0, fun a => UInt8.ofNat a⟩).mem.ramdisk,
        fun _ => 0⟩).mem.user (0 + k) = UInt8.ofNat (r.buf + k) := by
  intro r
  exact (rw_copies_request 4096 1 (by decide) r (by decide) (by decide) (by decide) 2 (by decide)
    ⟨fun _ => 0, fun a => UInt8.ofNat a⟩).2.2.2.2.2 ⟨0, 4097, by decide⟩ (fun _ => 0) rfl (by decide)

/-- A call that pinned `rc` pages moves their share of the request and says how much that is; one
that pinned none moves nothing and returns an error or 0. -/
structure Reports (PAGE_SIZE : UInt64) (r : Request) (rc rw : Int32) (mem : Memory) (out : Outcome) :
    Prop where
  share : 0 < rc.toInt →
    out.mem = transfer rw r.buf 0 (min r.count.toNat (rc.toInt.toNat * PAGE_SIZE.toNat)) mem
  returned : 0 < rc.toInt →
    out.rval.toInt = (min r.count.toNat (rc.toInt.toNat * PAGE_SIZE.toNat) : Nat)
  untouched : rc.toInt ≤ 0 → out.mem = mem
  failed : rc.toInt ≤ 0 → out.rval.toInt ≤ 0

/-- Whatever `get_user_pages` returns, a call moves whole pages but the last one of those pinned, of
which it moves as much as the request leaves for its own last page, and returns `count`. It reports
what it did exactly if all pages were pinned. -/
theorem rw_reports_iff (PAGE_SIZE : UInt64) (page : 0 < PAGE_SIZE) (r : Request)
    (asked : 0 < r.count) (aligned : PAGE_SIZE.toNat ∣ r.buf) (rc : Int32)
    (within : rc.toInt ≤ covering PAGE_SIZE r) (rw : Int32) (mem : Memory) :
    ((globalmem_rw PAGE_SIZE r rc rw mem).rval.toInt = r.count.toNat ∧
      (globalmem_rw PAGE_SIZE r rc rw mem).mem =
        transfer rw r.buf 0 (moved PAGE_SIZE r rc) mem) ∧
    (Reports PAGE_SIZE r rc rw mem (globalmem_rw PAGE_SIZE r rc rw mem) ↔
      rc.toInt = covering PAGE_SIZE r) := by
  have place := pageStart_aligned aligned
  refine ⟨⟨globalmem_rw_rval, by rw [globalmem_rw_mem, place]⟩, fun h => ?_, fun pinned => ?_⟩
  · have bytes := toNat_pos asked
    have covers := (covering_covers page asked).1
    by_cases some_pinned : 0 < rc.toInt
    · have returned := h.returned some_pinned
      rw [globalmem_rw_rval] at returned
      by_contra short
      have fewer : rc.toInt.toNat ≤ covering PAGE_SIZE r - 1 := by omega
      have less := Nat.mul_le_mul_right PAGE_SIZE.toNat fewer
      omega
    · have failed := h.failed (by omega)
      rw [globalmem_rw_rval] at failed
      omega
  · have positive := covering_pos page asked
    have covers := (covering_covers page asked).2
    have all : min r.count.toNat (rc.toInt.toNat * PAGE_SIZE.toNat) = r.count.toNat := by
      rw [pinned, Int.toNat_natCast]
      exact Nat.min_eq_left covers
    refine ⟨fun _ => ?_, fun _ => ?_, fun none_pinned => by omega, fun none_pinned => by omega⟩
    · rw [globalmem_rw_mem, place, all, moved_all page pinned]
    · rw [globalmem_rw_rval, all]

theorem rw_reports_iff_two_pages :
    let r : Request := ⟨8192, 4097, by decide⟩
    let mem : Memory := ⟨fun _ => 0, fun _ => 7⟩
    Reports 4096 r 2 1 mem (globalmem_rw 4096 r 2 1 mem) := by
  intro r mem
  exact (rw_reports_iff 4096 (by decide) r (by decide) (by decide) 2 (by decide) 1 mem).2.mpr
    (by decide)

/-- A write of one byte more than a page: with one page pinned one byte arrives, with a fault none,
and both times the call returns the full count. -/
theorem rw_reports_unmoved :
    let r : Request := ⟨8192, 4097, by decide⟩
    let mem : Memory := ⟨fun _ => 0, fun _ => 7⟩
    let out : Int32 → Outcome := fun rc => globalmem_write 4096 r rc mem
    ((out 1).rval = 4097 ∧ (out 1).mem.ramdisk 0 = 7 ∧ (out 1).mem.ramdisk 1 = 0 ∧
      ¬ Reports 4096 r 1 1 mem (out 1)) ∧
    ((out (-14)).rval = 4097 ∧ (out (-14)).mem = mem ∧ ¬ Reports 4096 r (-14) 1 mem (out (-14))) := by
  intro r mem out
  have full : ∀ rc, (out rc).rval.toInt = 4097 := fun _ => globalmem_rw_rval
  refine ⟨⟨rfl, by decide, by decide, fun h => ?_⟩, rfl, rfl, fun h => ?_⟩
  · have returned := h.returned (by decide)
    rw [full] at returned
    revert returned
    decide
  · have failed := h.failed (by decide)
    rw [full] at failed
    omega

end DeviceDriverEx.Pinned
