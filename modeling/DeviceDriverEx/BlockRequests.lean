import DeviceDriverEx.CInt
import DeviceDriverEx.Machine
import DeviceDriverEx.SectorStore

namespace DeviceDriverEx.BlockRequests

def sector_size : UInt32 := 512

/-- `rq->buffer`, as many sectors of it as `blk_rq_cur_sectors` says. -/
structure Segment where
  sectors : UInt32
  buffer : Bytes
  small : 512 * sectors.toNat < 2 ^ 31

/-- A request and what is left of it: whether it is a `REQ_TYPE_FS` one, `rq_data_dir`,
`blk_rq_pos` and its segments. -/
structure Request where
  fs : Bool
  write : Bool
  pos : UInt64
  bio : List Segment

namespace Request

/-- `blk_rq_cur_sectors(rq)` -/
def cur_sectors (rq : Request) : UInt32 :=
  match rq.bio with
  | [] => 0
  | seg :: _ => seg.sectors

def buffer (rq : Request) : Bytes :=
  match rq.bio with
  | [] => fun _ => 0
  | seg :: _ => seg.buffer

/-- `__blk_end_request_cur`: what is left of the request, or nothing. -/
def end_request_cur (rq : Request) : Option Request :=
  match rq.bio with
  | seg :: next :: rest =>
    some { rq with pos := if rq.fs then rq.pos + seg.sectors.toUInt64 else rq.pos, bio := next :: rest }
  | _ => none

theorem bio_end_request_cur {rq left : Request} (h : rq.end_request_cur = some left) :
    ∃ seg, rq.bio = seg :: left.bio ∧ left.bio ≠ [] ∧ left.fs = rq.fs ∧ left.write = rq.write ∧
      left.pos = if rq.fs then rq.pos + seg.sectors.toUInt64 else rq.pos := by
  obtain ⟨fs, write, pos, bio⟩ := rq
  match bio with
  | [] => cases h
  | [seg] => cases h
  | seg :: next :: rest =>
    cases h
    exact ⟨seg, rfl, List.cons_ne_nil _ _, rfl, rfl, rfl⟩

theorem length_of_finished {rq : Request} (h : rq.end_request_cur = none) : rq.bio.length ≤ 1 := by
  obtain ⟨fs, write, pos, bio⟩ := rq
  match bio with
  | [] => exact Nat.zero_le _
  | [seg] => exact Nat.le_refl 1
  | seg :: next :: rest => cases h

end Request

/-- One turn of the loop: the memory and the buffer behind it, and the part of the memory that it
has copied to or from. -/
structure Turn where
  ramdisk : Bytes
  buffer : Bytes
  place : Option (Nat × Nat)

/-- What a turn does with the request it finds, up to `done`. The two ends that are compared lie in
one address space, behind `ramdisk`. -/
def transfer (disk_size : Int32) (ramdisk : Bytes) (rq : Request) : Turn :=
  if rq.fs = false then ⟨ramdisk, rq.buffer, none⟩
  else
    let nr_sectors := rq.cur_sectors
    let sector := rq.pos.toUInt32
    let ptr := (sector * sector_size).toNat
    let size := (nr_sectors * sector_size).toInt32
    if ptr + size.toInt > disk_size.toInt then ⟨ramdisk, rq.buffer, none⟩
    else
      let n := size.toInt64.toUInt64.toNat
      if rq.write then ⟨copyBytes ramdisk ptr rq.buffer 0 n, rq.buffer, some (ptr, n)⟩
      else ⟨ramdisk, copyBytes rq.buffer 0 ramdisk ptr n, some (ptr, n)⟩

/-- A request that has been ended, and for each of its segments the buffer and the result. -/
structure Ended where
  rq : Request
  got : List (Bytes × Int32)

structure State where
  ramdisk : Bytes
  queue : List Request
  ended : List Ended
  turns : List (Request × Option (Nat × Nat))

def init (ramdisk : Bytes) : State := ⟨ramdisk, [], [], []⟩

/-- The loop of `my_request`. It was handed `whole`, of which `rq` is left, and has got so far. -/
def loop (disk_size : Int32) (whole rq : Request) (got : List (Bytes × Int32)) (s : State) : State :=
  let res : Int32 := 0
  let t := transfer disk_size s.ramdisk rq
  let turns := s.turns ++ [(rq, t.place)]
  match _ : rq.end_request_cur with
  | some left =>
    loop disk_size whole left (got ++ [(t.buffer, res)]) { s with ramdisk := t.ramdisk, turns := turns }
  | none =>
    let ended := s.ended ++ [⟨whole, got ++ [(t.buffer, res)]⟩]
    match _ : s.queue with
    | [] => ⟨t.ramdisk, [], ended, turns⟩
    | next :: queue => loop disk_size next next [] ⟨t.ramdisk, queue, ended, turns⟩
termination_by (s.queue.length, rq.bio.length)
decreasing_by
  · rename_i ended
    obtain ⟨seg, bio, _⟩ := Request.bio_end_request_cur ended
    rw [bio]
    exact Prod.Lex.right _ (Nat.lt_succ_self _)
  · rename_i queued
    rw [queued]
    exact Prod.Lex.left _ _ (Nat.lt_succ_self _)

def my_request (disk_size : Int32) (s : State) : State :=
  match s.queue with
  | [] => s
  | rq :: queue => loop disk_size rq rq [] { s with queue := queue }

/-- The block layer queues a request, or calls the driver's request function. -/
inductive Act
  | submit (rq : Request)
  | my_request

def Act.submitted : Act → Option Request
  | .submit rq => some rq
  | .my_request => none

def machine (disk_size : Int32) : Machine State Act where
  Enabled _ _ := True
  next s
    | .submit rq => { s with queue := s.queue ++ [rq] }
    | .my_request => my_request disk_size s

theorem Request.small (rq : Request) : 512 * rq.cur_sectors.toNat < 2 ^ 31 := by
  obtain ⟨fs, write, pos, bio⟩ := rq
  match bio with
  | [] => exact Nat.zero_lt_of_lt (Nat.lt_succ_self _)
  | seg :: _ => exact seg.small

/-- Where a turn looks for the sectors of its request. -/
def Request.ptr (rq : Request) : Nat := 512 * rq.pos.toNat % 2 ^ 32

def Request.size (rq : Request) : Nat := 512 * rq.cur_sectors.toNat

theorem ptr_eq (rq : Request) : (rq.pos.toUInt32 * sector_size).toNat = rq.ptr := by
  rw [UInt32.toNat_mul, UInt64.toNat_toUInt32, Request.ptr]
  change rq.pos.toNat % 2 ^ 32 * 512 % 2 ^ 32 = _
  omega

theorem size_eq (rq : Request) :
    (rq.cur_sectors * sector_size).toInt32.toInt = rq.size ∧
      (rq.cur_sectors * sector_size).toInt32.toInt64.toUInt64.toNat = rq.size := by
  have small := rq.small
  have value : (rq.cur_sectors * sector_size).toNat = rq.size := by
    rw [UInt32.toNat_mul, Request.size]
    change rq.cur_sectors.toNat * 512 % 2 ^ 32 = _
    omega
  have int : (rq.cur_sectors * sector_size).toInt32.toInt = rq.size := by
    change (rq.cur_sectors * sector_size).toBitVec.toInt = _
    rw [BitVec.toInt_eq_toNat_cond, UInt32.toNat_toBitVec, value, Request.size, if_pos (by omega)]
  refine ⟨int, ?_⟩
  have wide : (rq.cur_sectors * sector_size).toInt32.toInt64.toInt = rq.size := by
    rw [Int32.toInt_toInt64, int]
  rw [toUInt64_toNat (nonneg_of_toInt wide), wide, Int.toNat_natCast]

theorem transfer_eq (disk_size : Int32) (ramdisk : Bytes) (rq : Request) :
    transfer disk_size ramdisk rq =
      if rq.fs = true ∧ (rq.ptr + rq.size : Int) ≤ disk_size.toInt then
        bif rq.write then
          ⟨copyBytes ramdisk rq.ptr rq.buffer 0 rq.size, rq.buffer, some (rq.ptr, rq.size)⟩
        else ⟨ramdisk, copyBytes rq.buffer 0 ramdisk rq.ptr rq.size, some (rq.ptr, rq.size)⟩
      else ⟨ramdisk, rq.buffer, none⟩ := by
  obtain ⟨size, n⟩ := size_eq rq
  unfold transfer
  simp only [ptr_eq, size, n]
  cases fs : rq.fs with
  | false => simp
  | true =>
    by_cases fits : (rq.ptr + rq.size : Int) ≤ disk_size.toInt
    · have within : ¬ (rq.ptr + rq.size : Int) > disk_size.toInt := by omega
      cases rq.write <;> simp [within, fits]
    · have past : (rq.ptr + rq.size : Int) > disk_size.toInt := by omega
      simp [past, fits]

/-- What a turn leaves but for the request. -/
def State.turn (disk_size : Int32) (s : State) (rq : Request) : State :=
  let t := transfer disk_size s.ramdisk rq
  { s with ramdisk := t.ramdisk, turns := s.turns ++ [(rq, t.place)] }

def State.got (disk_size : Int32) (s : State) (rq : Request) : Bytes × Int32 :=
  ((transfer disk_size s.ramdisk rq).buffer, 0)

section
variable {disk_size : Int32} {I : Request → Request → List (Bytes × Int32) → State → Prop}
  {J : State → Prop}
  (more : ∀ {whole rq left got s}, I whole rq got s → rq.end_request_cur = some left →
    I whole left (got ++ [s.got disk_size rq]) (s.turn disk_size rq))
  (ends : ∀ {whole rq got s}, I whole rq got s → rq.end_request_cur = none →
    J { s.turn disk_size rq with ended := s.ended ++ [⟨whole, got ++ [s.got disk_size rq]⟩] })
  (fetch : ∀ {s rq queue}, J s → s.queue = rq :: queue → I rq rq [] { s with queue := queue })

include more ends fetch

/-- `I` holds of the loop while it has a request in hand, `J` in between. -/
theorem loop_rule {whole rq : Request} {got : List (Bytes × Int32)} {s : State}
    (h : I whole rq got s) :
    J (loop disk_size whole rq got s) ∧ (loop disk_size whole rq got s).queue = [] := by
  induction whole, rq, got, s using loop.induct disk_size with
  | case1 whole rq got s res t turns left pending ih =>
    rw [loop]
    split
    next left' pending' =>
      obtain rfl : left = left' := Option.some.inj (pending.symm.trans pending')
      exact ih (more h pending)
    next finished => exact absurd (pending.symm.trans finished) nofun
  | case2 whole rq got s finished empty =>
    rw [loop]
    split
    next left pending => exact absurd (finished.symm.trans pending) nofun
    next =>
      split
      next =>
        have between := ends h finished
        rw [State.turn, empty] at between
        exact ⟨between, rfl⟩
      next next queue queued => exact absurd (empty.symm.trans queued) nofun
  | case3 whole rq got s res t turns finished ended next queue queued ih =>
    rw [loop]
    split
    next left pending => exact absurd (finished.symm.trans pending) nofun
    next =>
      split
      next empty => exact absurd (queued.symm.trans empty) nofun
      next next' queue' queued' =>
        obtain ⟨rfl, rfl⟩ := List.cons.inj (queued.symm.trans queued')
        exact ih (fetch (ends h finished) queued)

theorem my_request_rule {s : State} (h : J s) :
    J (my_request disk_size s) ∧ (my_request disk_size s).queue = [] := by
  unfold my_request
  split
  next empty => exact ⟨h, empty⟩
  next rq queue queued => exact loop_rule more ends fetch (fetch h queued)

end

/-- The place of a turn: inside the disk, and that of its sectors just if these are. -/
def Placed (disk_size : Int32) (rq : Request) (place : Option (Nat × Nat)) : Prop :=
  (∀ a ∈ place, (a.1 + a.2 : Int) ≤ disk_size.toInt) ∧
    (rq.fs = true → 0 < rq.size →
      (place = some (512 * rq.pos.toNat, rq.size) ↔
        (512 * rq.pos.toNat + rq.size : Int) ≤ disk_size.toInt))

theorem transfer_placed (disk_size : Int32) (ramdisk : Bytes) (rq : Request) :
    Placed disk_size rq (transfer disk_size ramdisk rq).place := by
  have short := Int32.toInt_lt disk_size
  have place : (transfer disk_size ramdisk rq).place =
      if rq.fs = true ∧ (rq.ptr + rq.size : Int) ≤ disk_size.toInt then some (rq.ptr, rq.size)
      else none := by
    rw [transfer_eq]
    split
    next => cases rq.write <;> rfl
    next => rfl
  rw [place]
  by_cases fits : rq.fs = true ∧ (rq.ptr + rq.size : Int) ≤ disk_size.toInt
  · rw [if_pos fits]
    refine ⟨fun a ha => ?_, fun _ some_bytes => ?_⟩
    · obtain rfl := Option.some.inj ha
      exact fits.2
    · have low : rq.ptr = 512 * rq.pos.toNat % 2 ^ 32 := rfl
      rw [Option.some.injEq, Prod.mk.injEq]
      omega
  · rw [if_neg fits]
    refine ⟨(fun a ha => by cases ha), fun fs some_bytes => ?_⟩
    have past : ¬ (rq.ptr + rq.size : Int) ≤ disk_size.toInt := fun le => fits ⟨fs, le⟩
    have low : rq.ptr = 512 * rq.pos.toNat % 2 ^ 32 := rfl
    refine iff_of_false nofun fun inside => past ?_
    omega

/-- What the block layer is told of the requests, `submitted` in this order. -/
structure Served (disk_size : Int32) (submitted : List Request) (s : State) : Prop where
  order : s.ended.map Ended.rq ++ s.queue = submitted
  got : ∀ e ∈ s.ended, e.got.length = max 1 e.rq.bio.length ∧ ∀ g ∈ e.got, g.2 = 0
  turns : ∀ t ∈ s.turns, Placed disk_size t.1 t.2

/-- The same with `whole` in hand, of which `rq` is left. -/
structure Serving (disk_size : Int32) (submitted : List Request) (whole rq : Request)
    (hand : List (Bytes × Int32)) (s : State) : Prop where
  served : Served disk_size submitted { s with queue := whole :: s.queue }
  length : hand.length + max 1 rq.bio.length = max 1 whole.bio.length
  good : ∀ g ∈ hand, g.2 = 0

theorem placed_turn {disk_size : Int32} {s : State} (h : ∀ t ∈ s.turns, Placed disk_size t.1 t.2)
    (rq : Request) : ∀ t ∈ (s.turn disk_size rq).turns, Placed disk_size t.1 t.2 := by
  intro t ht
  rcases List.mem_append.mp ht with ht | ht
  · exact h t ht
  · obtain rfl := List.mem_singleton.mp ht
    exact transfer_placed disk_size s.ramdisk rq

theorem good_got {disk_size : Int32} {s : State} {hand : List (Bytes × Int32)} (rq : Request)
    (h : ∀ g ∈ hand, g.2 = 0) : ∀ g ∈ hand ++ [s.got disk_size rq], g.2 = 0 := by
  intro g hg
  rcases List.mem_append.mp hg with hg | hg
  · exact h g hg
  · obtain rfl := List.mem_singleton.mp hg
    rfl

theorem served_my_request {disk_size : Int32} {submitted : List Request} {s : State}
    (h : Served disk_size submitted s) :
    Served disk_size submitted (my_request disk_size s) ∧ (my_request disk_size s).queue = [] := by
  refine my_request_rule (I := Serving disk_size submitted) (fun h pending => ?_)
    (fun {whole rq hand s} h finished => ?_) (fun h queued => ?_) h
  · obtain ⟨seg, bio, some_left, _⟩ := Request.bio_end_request_cur pending
    refine ⟨⟨h.served.order, h.served.got, placed_turn h.served.turns _⟩, ?_, good_got _ h.good⟩
    have length := h.length
    have positive := List.length_pos_iff.mpr some_left
    rw [bio, List.length_cons] at length
    rw [List.length_append, List.length_singleton]
    omega
  · refine ⟨?_, fun e he => ?_, placed_turn h.served.turns _⟩
    · have order := h.served.order
      rw [List.map_append, List.append_assoc]
      exact order
    · rcases List.mem_append.mp he with he | he
      · exact h.served.got e he
      · obtain rfl := List.mem_singleton.mp he
        have length := h.length
        have last := Request.length_of_finished finished
        refine ⟨?_, good_got _ h.good⟩
        change (hand ++ [s.got disk_size rq]).length = max 1 whole.bio.length
        rw [List.length_append, List.length_singleton]
        omega
  · refine ⟨?_, Nat.zero_add _, fun g hg => by cases hg⟩
    rw [← queued]
    exact h

theorem served_run {disk_size : Int32} {ramdisk : Bytes} {as : List Act} {s : State}
    (h : Run (machine disk_size) (init ramdisk) as s) :
    Served disk_size (as.filterMap Act.submitted) s := by
  induction h with
  | start => exact ⟨rfl, (fun e he => by cases he), fun t ht => by cases ht⟩
  | @next as s a _ _ ih =>
    rw [List.filterMap_append]
    cases a with
    | submit rq =>
      refine ⟨?_, ih.got, ih.turns⟩
      change s.ended.map Ended.rq ++ (s.queue ++ [rq]) = _
      rw [← List.append_assoc, ih.order]
      rfl
    | my_request =>
      rw [show [Act.my_request].filterMap Act.submitted = [] from rfl, List.append_nil]
      exact (served_my_request ih).1

/-- Whatever requests the block layer queues and whenever it calls the driver: they are ended once
each, in this order, and when the driver returns there is none left. No turn touches a byte outside
the disk, and one that has something to transfer does it at the right place just if that is inside;
but every segment is reported as a success. -/
theorem requests_end_well {disk_size : Int32} {ramdisk : Bytes} {as : List Act} {s : State}
    (h : Run (machine disk_size) (init ramdisk) as s) :
    s.ended.map Ended.rq ++ s.queue = as.filterMap Act.submitted ∧
      (as.getLast? = some .my_request → s.queue = []) ∧
      (∀ e ∈ s.ended, e.got.length = max 1 e.rq.bio.length ∧ ∀ g ∈ e.got, g.2 = 0) ∧
      ∀ t ∈ s.turns, Placed disk_size t.1 t.2 := by
  have served := served_run h
  refine ⟨served.order, fun last => ?_, served.got, served.turns⟩
  cases h with
  | start => cases last
  | next before _ =>
    rw [List.getLast?_concat] at last
    obtain rfl := Option.some.inj last
    exact (served_my_request (served_run before)).2

/-- A sector so far out that its place in the memory is computed as 0. -/
theorem requests_end_well_past :
    let rq : Request := ⟨true, true, 0x800000, [⟨1, fun _ => 7, by decide⟩]⟩
    let s := (machine 1024).replay (init fun _ => 0) [.submit rq, .my_request]
    s.ended.map Ended.rq = [rq] ∧ s.queue = [] ∧ (∀ e ∈ s.ended, ∀ g ∈ e.got, g.2 = 0) ∧
      ∀ t ∈ s.turns, t.1 = rq → t.2 ≠ some (512 * rq.pos.toNat, rq.size) := by
  intro rq s
  have run : Run (machine 1024) (init fun _ => 0) [.submit rq, .my_request] s :=
    run_of_enabled (fun _ _ => trivial) _ _
  obtain ⟨order, ended, good, placed⟩ := requests_end_well run
  have empty := ended rfl
  rw [empty, List.append_nil] at order
  refine ⟨order, empty, fun e he => (good e he).2, fun t ht same own => ?_⟩
  have inside := (((same ▸ placed t ht).2 rfl (by decide)).mp own)
  exact absurd inside (by decide)

abbrev Block := Fin 512 → UInt8

def Segment.blocks (seg : Segment) : List Block := (blockAt 512 seg.buffer).get 0 seg.sectors.toNat

def Request.blocks (rq : Request) : List Block := rq.bio.flatMap Segment.blocks

/-- What a disk makes of a request, and what stands in the buffers of the request behind that. -/
def Request.serve (rq : Request) (d : Disk Block) : Disk Block × List Block :=
  if rq.fs = false then (d, rq.blocks)
  else if rq.write = true then (d.put rq.pos.toNat rq.blocks, rq.blocks)
  else (d, d.get rq.pos.toNat rq.blocks.length)

def serveAll (d : Disk Block) : List Request → Disk Block × List (List Block)
  | [] => (d, [])
  | rq :: rest => ((serveAll (rq.serve d).1 rest).1, (rq.serve d).2 :: (serveAll (rq.serve d).1 rest).2)

/-- The blocks in the buffers of the segments of a request. -/
def answer (bio : List Segment) (got : List (Bytes × Int32)) : List Block :=
  (bio.zip got).flatMap fun x => (blockAt 512 x.2.1).get 0 x.1.sectors.toNat

def Ended.blocks (e : Ended) : List Block := answer e.rq.bio e.got

theorem serveAll_concat (d : Disk Block) (rqs : List Request) (rq : Request) :
    serveAll d (rqs ++ [rq]) = ((rq.serve (serveAll d rqs).1).1,
      (serveAll d rqs).2 ++ [(rq.serve (serveAll d rqs).1).2]) := by
  induction rqs generalizing d with
  | nil => rfl
  | cons first rqs ih => simp only [List.cons_append, serveAll, ih]

@[simp]
theorem Segment.length_blocks (seg : Segment) : seg.blocks.length = seg.sectors.toNat :=
  Disk.length_get ..

/-- A request may be served in two parts. -/
theorem serve_append (whole : Request) (d : Disk Block) {front : List Segment} (seg : Segment)
    (pos : UInt64)
    (place : whole.fs = true → pos.toNat = whole.pos.toNat + (front.flatMap Segment.blocks).length) :
    { whole with bio := front ++ [seg] }.serve d =
      (({ whole with pos := pos, bio := [seg] }.serve ({ whole with bio := front }.serve d).1).1,
        ({ whole with bio := front }.serve d).2 ++
          ({ whole with pos := pos, bio := [seg] }.serve ({ whole with bio := front }.serve d).1).2) := by
  obtain ⟨fs, write, start, bio⟩ := whole
  cases fs with
  | false => simp [Request.serve, Request.blocks]
  | true =>
    have next := place rfl
    cases write with
    | false =>
      simp only [Request.serve, Request.blocks, List.flatMap_append, List.flatMap_singleton,
        List.length_append, Disk.get_append, next]
      rfl
    | true =>
      simp only [Request.serve, Request.blocks, List.flatMap_append, List.flatMap_singleton,
        Disk.put_append, next]
      rfl

theorem transfer_empty (disk_size : Int32) (ramdisk : Bytes) {rq : Request} (bio : rq.bio = []) :
    (transfer disk_size ramdisk rq).ramdisk = ramdisk := by
  have size : rq.size = 0 := by rw [Request.size, Request.cur_sectors, bio]; rfl
  rw [transfer_eq, size]
  split
  next =>
    cases rq.write with
    | false => rfl
    | true => exact copyBytes_zero ..
  next => rfl

/-- A turn serves a segment that lies inside the disk. -/
theorem transfer_blocks (disk_size : Int32) (ramdisk : Bytes) {rq : Request} {seg : Segment}
    {rest : List Segment} (bio : rq.bio = seg :: rest)
    (inside : rq.fs = true → (512 * (rq.pos.toNat + seg.sectors.toNat) : Int) ≤ disk_size.toInt) :
    (blockAt 512 (transfer disk_size ramdisk rq).ramdisk,
      (blockAt 512 (transfer disk_size ramdisk rq).buffer).get 0 seg.sectors.toNat) =
        { rq with bio := [seg] }.serve (blockAt 512 ramdisk) := by
  have short := Int32.toInt_lt disk_size
  obtain ⟨fs, write, pos, _⟩ := rq
  obtain rfl := bio
  cases fs with
  | false => simp [transfer, Request.serve, Request.blocks, Request.buffer, Segment.blocks]
  | true =>
    have inside : (512 * (pos.toNat + seg.sectors.toNat) : Int) ≤ disk_size.toInt := inside rfl
    have size : Request.size ⟨true, write, pos, seg :: rest⟩ = 512 * seg.sectors.toNat := rfl
    have ptr : Request.ptr ⟨true, write, pos, seg :: rest⟩ = 512 * pos.toNat := by
      change 512 * pos.toNat % 2 ^ 32 = _
      exact Nat.mod_eq_of_lt (by omega)
    rw [transfer_eq, ptr, size, if_pos ⟨rfl, by omega⟩]
    cases write with
    | false =>
      change (blockAt 512 ramdisk, (blockAt 512 (copyBytes seg.buffer 0 ramdisk _ _)).get 0 _) = _
      rw [get_copyBytes]
      simp [Request.serve, Request.blocks]
    | true =>
      change (blockAt 512 (copyBytes ramdisk _ seg.buffer (512 * 0) _), seg.blocks) = _
      rw [blockAt_copyBytes]
      simp [Request.serve, Request.blocks, Segment.blocks]

/-- `set_capacity(my_gd, disk_size / sector_size)` -/
def capacity (disk_size : Int32) : UInt64 := (disk_size / 512).toInt64.toUInt64

theorem capacity_le {disk_size : Int32} (h : 0 ≤ disk_size.toInt) :
    (512 * (capacity disk_size).toNat : Int) ≤ disk_size.toInt := by
  have value : (disk_size / 512).toInt64.toInt = disk_size.toInt / 512 := by
    rw [Int32.toInt_toInt64, Int32.toInt_div_of_ne_right _ _ (by decide)]
    exact Int.tdiv_eq_ediv_of_nonneg h
  have nonneg : 0 ≤ (disk_size / 512).toInt64 := by
    rw [Int64.le_iff_toInt_le, value]
    exact Int.ediv_nonneg h (by decide)
  rw [capacity, toUInt64_toNat nonneg, value]
  omega

/-- What the block layer lets through. -/
def Request.Inside (disk_size : Int32) (rq : Request) : Prop :=
  rq.fs = true → rq.pos.toNat + rq.blocks.length ≤ (capacity disk_size).toNat

/-- Between two requests. -/
structure Agrees (disk_size : Int32) (disk : Disk Block) (s : State) : Prop where
  served : (blockAt 512 s.ramdisk, s.ended.map Ended.blocks) = serveAll disk (s.ended.map Ended.rq)
  inside : ∀ rq ∈ s.queue, rq.Inside disk_size

/-- `front` of `whole` has been served. -/
structure Halfway (disk_size : Int32) (disk : Disk Block) (whole rq : Request)
    (hand : List (Bytes × Int32)) (s : State) (front : List Segment) : Prop where
  bio : whole.bio = front ++ rq.bio
  length : hand.length = front.length
  begun : rq.bio = [] → front = []
  fs : rq.fs = whole.fs
  write : rq.write = whole.write
  pos : rq.fs = true → rq.pos.toNat = whole.pos.toNat + (front.flatMap Segment.blocks).length
  served : s.ended.map Ended.blocks = (serveAll disk (s.ended.map Ended.rq)).2
  half : (blockAt 512 s.ramdisk, answer front hand) =
    { whole with bio := front }.serve (serveAll disk (s.ended.map Ended.rq)).1
  inside : whole.Inside disk_size
  queue : ∀ rq ∈ s.queue, rq.Inside disk_size

theorem answer_concat {front : List Segment} {hand : List (Bytes × Int32)}
    (length : hand.length = front.length) (seg : Segment) (g : Bytes × Int32) :
    answer (front ++ [seg]) (hand ++ [g]) =
      answer front hand ++ (blockAt 512 g.1).get 0 seg.sectors.toNat := by
  rw [answer, List.zip_append length.symm, List.flatMap_append]
  simp [answer]

section
variable {disk_size : Int32} {disk : Disk Block} {whole rq : Request} {hand : List (Bytes × Int32)}
  {s : State} {front : List Segment}

/-- One segment more. -/
theorem halfway_turn (size : 0 ≤ disk_size.toInt) (h : Halfway disk_size disk whole rq hand s front)
    {seg : Segment} {rest : List Segment} (bio : rq.bio = seg :: rest) :
    (blockAt 512 (s.turn disk_size rq).ramdisk,
      answer (front ++ [seg]) (hand ++ [s.got disk_size rq])) =
        { whole with bio := front ++ [seg] }.serve (serveAll disk (s.ended.map Ended.rq)).1 := by
  have fits := capacity_le size
  have turned := transfer_blocks disk_size s.ramdisk bio fun fs => by
    have inside := h.inside (h.fs.symm.trans fs)
    rw [Request.blocks, h.bio, bio, List.flatMap_append, List.length_append, List.flatMap_cons,
      List.length_append, Segment.length_blocks] at inside
    rw [h.pos fs]
    omega
  have same : { whole with pos := rq.pos, bio := [seg] } = { rq with bio := [seg] } := by
    rw [← h.fs, ← h.write]
  rw [serve_append whole _ seg rq.pos fun fs => h.pos (h.fs.trans fs), ← h.half, same, ← turned,
    answer_concat h.length]
  rfl

/-- And so the next one is found at its place. -/
theorem halfway_more (size : 0 ≤ disk_size.toInt) (h : Halfway disk_size disk whole rq hand s front)
    {left : Request} (pending : rq.end_request_cur = some left) :
    ∃ seg, Halfway disk_size disk whole left (hand ++ [s.got disk_size rq]) (s.turn disk_size rq)
      (front ++ [seg]) := by
  obtain ⟨seg, bio, some_left, fs, write, pos⟩ := Request.bio_end_request_cur pending
  refine ⟨seg, ?_, ?_, fun empty => absurd empty some_left, fs.trans h.fs, write.trans h.write,
    fun isFs => ?_, h.served, halfway_turn size h bio, h.inside, h.queue⟩
  · rw [h.bio, bio, List.append_assoc]
    rfl
  · rw [List.length_append, List.length_append, h.length]
    rfl
  · have isFs := fs.symm.trans isFs
    have fits := capacity_le size
    have short := Int32.toInt_lt disk_size
    have inside := h.inside (h.fs.symm.trans isFs)
    rw [Request.blocks, h.bio, bio, List.flatMap_append, List.length_append, List.flatMap_cons,
      List.length_append, Segment.length_blocks] at inside
    rw [pos, if_pos isFs, UInt64.toNat_add, h.pos isFs, List.flatMap_append, List.length_append,
      List.flatMap_singleton, Segment.length_blocks, UInt32.toNat_toUInt64]
    omega

/-- The request has been served as a whole when its last segment has. -/
theorem halfway_ends (size : 0 ≤ disk_size.toInt) (h : Halfway disk_size disk whole rq hand s front)
    (finished : rq.end_request_cur = none) : Agrees disk_size disk
      { s.turn disk_size rq with ended := s.ended ++ [⟨whole, hand ++ [s.got disk_size rq]⟩] } := by
  have last := Request.length_of_finished finished
  have whole_served : (blockAt 512 (s.turn disk_size rq).ramdisk,
      answer whole.bio (hand ++ [s.got disk_size rq])) =
        whole.serve (serveAll disk (s.ended.map Ended.rq)).1 := by
    match bio : rq.bio with
    | [] =>
      have half := h.half
      have whole_bio := h.bio
      rw [bio, h.begun bio, List.append_nil] at whole_bio
      rw [h.begun bio, ← whole_bio] at half
      have still : (s.turn disk_size rq).ramdisk = s.ramdisk := transfer_empty disk_size s.ramdisk bio
      rw [still, ← half, whole_bio]
      rfl
    | [seg] =>
      have turned := halfway_turn size h bio
      rw [← bio, ← h.bio] at turned
      exact turned
    | seg :: next :: rest =>
      rw [bio, List.length_cons, List.length_cons] at last
      omega
  refine ⟨?_, h.queue⟩
  rw [List.map_append, List.map_append, List.map_singleton, List.map_singleton, serveAll_concat,
    ← whole_served, h.served]
  rfl

theorem agrees_my_request (size : 0 ≤ disk_size.toInt) (h : Agrees disk_size disk s) :
    Agrees disk_size disk (my_request disk_size s) := by
  refine (my_request_rule
    (I := fun whole rq hand s => ∃ front, Halfway disk_size disk whole rq hand s front)
    (fun h pending => ?_) (fun h finished => ?_) (fun {s rq queue} h queued => ?_) h).1
  · obtain ⟨front, h⟩ := h
    obtain ⟨seg, more⟩ := halfway_more size h pending
    exact ⟨_, more⟩
  · obtain ⟨front, h⟩ := h
    exact halfway_ends size h finished
  · have inside : ∀ r ∈ rq :: queue, r.Inside disk_size := queued ▸ h.inside
    have served := Prod.mk.inj h.served
    refine ⟨[], rfl, rfl, fun _ => rfl, rfl, rfl, fun _ => rfl, served.2, ?_, ?_, ?_⟩
    · change (blockAt 512 s.ramdisk, []) = Request.serve _ (serveAll disk (s.ended.map Ended.rq)).1
      rw [served.1]
      simp [Request.serve, Request.blocks]
    · exact inside rq List.mem_cons_self
    · exact fun r hr => inside r (List.mem_cons_of_mem _ hr)

end

/-- As long as the block layer keeps to the capacity that it has been told, the driver is a disk:
the requests that it has ended have been served as a whole and one after another. -/
theorem requests_refine_disk {disk_size : Int32} {ramdisk : Bytes} (size : 0 ≤ disk_size.toInt)
    {as : List Act} {s : State} (h : Run (machine disk_size) (init ramdisk) as s)
    (inside : ∀ rq ∈ as.filterMap Act.submitted, rq.Inside disk_size) :
    (blockAt 512 s.ramdisk, s.ended.map Ended.blocks) =
      serveAll (blockAt 512 ramdisk) (s.ended.map Ended.rq) := by
  suffices agrees : Agrees disk_size (blockAt 512 ramdisk) s from agrees.served
  induction h with
  | start => exact ⟨rfl, fun rq hrq => by cases hrq⟩
  | @next as s a _ _ ih =>
    rw [List.filterMap_append] at inside
    have before := ih fun rq hrq => inside rq (List.mem_append_left _ hrq)
    cases a with
    | submit rq =>
      refine ⟨before.served, fun r hr => ?_⟩
      rcases List.mem_append.mp hr with hr | hr
      · exact before.inside r hr
      · obtain rfl := List.mem_singleton.mp hr
        exact inside r (List.mem_append_right _ List.mem_cons_self)
    | my_request => exact agrees_my_request size before

/-- What has been written to the last sector is read back from it. -/
theorem requests_refine_disk_read_back :
    let w : Request := ⟨true, true, 1, [⟨1, fun _ => 7, by decide⟩]⟩
    let r : Request := ⟨true, false, 1, [⟨1, fun _ => 0, by decide⟩]⟩
    let s := (machine 1024).replay (init fun _ => 0) [.submit w, .submit r, .my_request]
    s.ended.map Ended.rq = [w, r] ∧ s.ended.map Ended.blocks = [w.blocks, w.blocks] := by
  intro w r s
  have before : Run (machine 1024) (init fun _ => 0) [.submit w, .submit r] _ :=
    run_of_enabled (fun _ _ => trivial) _ _
  obtain ⟨told, empty⟩ := served_my_request (served_run before)
  have order := told.order
  rw [empty, List.append_nil] at order
  have run : Run (machine 1024) (init fun _ => 0) [.submit w, .submit r, .my_request] s :=
    run_of_enabled (fun _ _ => trivial) _ _
  have inside : ∀ rq ∈ [w, r], rq.Inside 1024 := by
    intro rq hrq _
    rcases List.mem_cons.mp hrq with rfl | hrq
    · decide
    · obtain rfl := List.mem_singleton.mp hrq
      decide
  have served := (Prod.mk.inj (requests_refine_disk (by decide) run inside)).2
  refine ⟨order, ?_⟩
  rw [show s.ended.map Ended.rq = [w, r] from order] at served
  rw [served]
  exact congrArg (fun d => [w.blocks, d]) (Disk.get_put (blockAt 512 fun _ => 0) 1 w.blocks)

end DeviceDriverEx.BlockRequests
