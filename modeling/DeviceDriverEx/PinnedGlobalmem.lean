import DeviceDriverEx.Bytes
import DeviceDriverEx.CInt
import Mathlib.Data.List.Basic

namespace DeviceDriverEx.Pinned

/-- The arguments of a read or a write in 18_LAB2; `buf` is an address. The kernel lets through no
count that is negative as an `ssize_t`. -/
structure Request where
  buf : Nat
  count : UInt64
  admitted : count.toNat < 2 ^ 63

/-- The bytes behind `dev->ramdisk`, and the caller's address space. -/
structure Memory where
  ramdisk : Bytes
  user : Bytes

/-- What is called; `memcpy` has the offset in the ramdisk and the size. -/
inductive Call
  | kmalloc (n : Int32)
  | down_read
  | get_user_pages (buf : Nat) (npages rc : Int32)
  | up_read
  | kmap (page : Nat)
  | memcpy (kbuf nbytes : Nat)
  | lock_page (page : Nat)
  | set_page_dirty (page : Nat)
  | unlock_page (page : Nat)
  | page_cache_release (page : Nat)
  | kunmap (page : Nat)
  | kfree
  deriving DecidableEq

/-- The variables of the loop. `nbytes` is at most the page size, which fits its `int`. -/
structure Loop where
  mem : Memory
  kbuf : Nat
  nbytes : Nat
  calls : List Call

structure Outcome where
  rval : Int64
  mem : Memory
  calls : List Call

def npages (PAGE_SIZE : UInt64) (r : Request) : Int32 :=
  ((r.count - 1) / PAGE_SIZE + 1).toUInt32.toInt32

/-- What `get_user_pages` stores in `pages[i]`: the pages of the address space from that of `buf`
on. -/
def pages (PAGE_SIZE : UInt64) (r : Request) (i : Nat) : Nat := r.buf / PAGE_SIZE.toNat + i

/-- The copy between the two sides in the direction of `rw`, which is 0 in a read and 1 in a
write. -/
def transfer (rw : Int32) (ubuf kbuf nbytes : Nat) (m : Memory) : Memory :=
  if rw = 0 then { m with user := copyBytes m.user ubuf m.ramdisk kbuf nbytes }
  else if rw = 1 then { m with ramdisk := copyBytes m.ramdisk kbuf m.user ubuf nbytes }
  else m

/-- The calls for one page, in order. -/
def pageCalls (rw : Int32) (page kbuf nbytes : Nat) : List Call :=
  [.kmap page] ++ (if rw = 0 ∨ rw = 1 then [.memcpy kbuf nbytes] else []) ++
    [.lock_page page, .set_page_dirty page, .unlock_page page, .page_cache_release page,
      .kunmap page]

/-- The size of the last page that is copied, whichever that is. -/
def last (PAGE_SIZE : UInt64) (r : Request) : Nat := ((r.count - 1) % PAGE_SIZE + 1).toNat

/-- One pass through the loop. `kmap` makes a page visible at its first byte. -/
def body (PAGE_SIZE : UInt64) (r : Request) (rc rw : Int32) (s : Loop) (i : Nat) : Loop :=
  let page := pages PAGE_SIZE r i
  let ubuf := page * PAGE_SIZE.toNat
  let nbytes := if (i : Int) = rc.toInt - 1 then last PAGE_SIZE r else s.nbytes
  ⟨transfer rw ubuf s.kbuf nbytes s.mem, s.kbuf + PAGE_SIZE.toNat, nbytes,
    s.calls ++ pageCalls rw page s.kbuf nbytes⟩

/-- The first `n` passes. -/
def loop (PAGE_SIZE : UInt64) (r : Request) (rc rw : Int32) (mem : Memory) (n : Nat) : Loop :=
  (List.range n).foldl (body PAGE_SIZE r rc rw) ⟨mem, 0, PAGE_SIZE.toNat, []⟩

/-- `rc` is what `get_user_pages` returned, a number of pages or a negative error. -/
def globalmem_rw (PAGE_SIZE : UInt64) (r : Request) (rc rw : Int32) (mem : Memory) : Outcome :=
  let npages := npages PAGE_SIZE r
  let s := loop PAGE_SIZE r rc rw mem rc.toInt.toNat
  ⟨r.count.toInt64, s.mem,
    [.kmalloc npages, .down_read, .get_user_pages r.buf npages rc, .up_read] ++ s.calls ++ [.kfree]⟩

def globalmem_read (PAGE_SIZE : UInt64) (r : Request) (rc : Int32) (mem : Memory) : Outcome :=
  globalmem_rw PAGE_SIZE r rc 0 mem

def globalmem_write (PAGE_SIZE : UInt64) (r : Request) (rc : Int32) (mem : Memory) : Outcome :=
  globalmem_rw PAGE_SIZE r rc 1 mem

/-- The pages that `page_cache_release` was called for. -/
def released (calls : List Call) : List Nat :=
  calls.filterMap fun
    | .page_cache_release page => some page
    | _ => none

/-- The parts of the ramdisk that `memcpy` was called for. -/
def copies (calls : List Call) : List (Nat × Nat) :=
  calls.filterMap fun
    | .memcpy kbuf nbytes => some (kbuf, nbytes)
    | _ => none

section
variable {PAGE_SIZE : UInt64} {r : Request} {rc rw : Int32} {mem : Memory}

theorem transfer_zero {ubuf kbuf : Nat} : transfer rw ubuf kbuf 0 mem = mem := by
  unfold transfer
  split
  · rw [copyBytes_zero]
  · split
    · rw [copyBytes_zero]
    · rfl

theorem transfer_append {ubuf kbuf n m : Nat} :
    transfer rw (ubuf + n) (kbuf + n) m (transfer rw ubuf kbuf n mem) =
      transfer rw ubuf kbuf (n + m) mem := by
  unfold transfer
  split
  · simp only [copyBytes_append]
  · split
    · simp only [copyBytes_append]
    · rfl

/-- Where the page begins that holds the first byte of the buffer. -/
def pageStart (PAGE_SIZE : UInt64) (r : Request) : Nat := r.buf / PAGE_SIZE.toNat * PAGE_SIZE.toNat

theorem pages_mul {i : Nat} :
    pages PAGE_SIZE r i * PAGE_SIZE.toNat = pageStart PAGE_SIZE r + i * PAGE_SIZE.toNat :=
  Nat.add_mul ..

theorem pageStart_aligned (aligned : PAGE_SIZE.toNat ∣ r.buf) : pageStart PAGE_SIZE r = r.buf :=
  Nat.div_mul_cancel aligned

theorem loop_succ {n : Nat} : loop PAGE_SIZE r rc rw mem (n + 1) =
    body PAGE_SIZE r rc rw (loop PAGE_SIZE r rc rw mem n) n := by
  unfold loop
  rw [List.range_succ, List.foldl_append]
  rfl

/-- Before the last pass the loop has moved whole pages. -/
theorem loop_full {n : Nat} (h : (n : Int) < rc.toInt) :
    loop PAGE_SIZE r rc rw mem n =
      ⟨transfer rw (pageStart PAGE_SIZE r) 0 (n * PAGE_SIZE.toNat) mem, n * PAGE_SIZE.toNat, PAGE_SIZE.toNat,
        (List.range n).flatMap fun i =>
          pageCalls rw (pages PAGE_SIZE r i) (i * PAGE_SIZE.toNat) PAGE_SIZE.toNat⟩ := by
  induction n with
  | zero =>
    rw [Nat.zero_mul, transfer_zero]
    rfl
  | succ n ih =>
    have before : (n : Int) < rc.toInt := by omega
    have full : (n : Int) ≠ rc.toInt - 1 := by omega
    have moved := @transfer_append rw mem (pageStart PAGE_SIZE r) 0 (n * PAGE_SIZE.toNat)
      PAGE_SIZE.toNat
    rw [Nat.zero_add] at moved
    rw [loop_succ, ih before, body, pages_mul, Nat.succ_mul, List.range_succ,
      List.flatMap_append]
    simp only [if_neg full, moved, List.flatMap_singleton]

/-- The last pass moves what `count` leaves for a last page. -/
theorem loop_last {n : Nat} (h : rc.toInt = n + 1) :
    loop PAGE_SIZE r rc rw mem rc.toInt.toNat =
      ⟨transfer rw (pageStart PAGE_SIZE r) 0 (n * PAGE_SIZE.toNat + last PAGE_SIZE r) mem,
        n * PAGE_SIZE.toNat + PAGE_SIZE.toNat, last PAGE_SIZE r,
        (loop PAGE_SIZE r rc rw mem n).calls ++
          pageCalls rw (pages PAGE_SIZE r n) (n * PAGE_SIZE.toNat) (last PAGE_SIZE r)⟩ := by
  have passes : rc.toInt.toNat = n + 1 := by omega
  have atLast : (n : Int) = rc.toInt - 1 := by omega
  have moved := @transfer_append rw mem (pageStart PAGE_SIZE r) 0 (n * PAGE_SIZE.toNat)
    (last PAGE_SIZE r)
  rw [Nat.zero_add] at moved
  rw [passes, loop_succ, loop_full (by omega), body, pages_mul]
  simp only [if_pos atLast]
  rw [← moved]

end

end DeviceDriverEx.Pinned
