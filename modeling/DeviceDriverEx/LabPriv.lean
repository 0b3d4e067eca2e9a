import DeviceDriverEx.LabChar
import DeviceDriverEx.Owners

namespace DeviceDriverEx.LabPriv

/-- The driver of `s_04/lab2_priv.c` with the files `φ`. `private_data` is `none` where it is null,
and so for a file that is not open; the log is kept newest first. -/
structure State (φ : Type) where
  opened : φ → Bool
  private_data : φ → Option UInt64
  memory : Bytes
  log : List (HeapEvent UInt64)

def init {φ : Type} (memory : Bytes) : State φ := ⟨fun _ => false, fun _ => none, memory, []⟩

/-- `ramdisk + *ppos` -/
def place (ramdisk : Option UInt64) (ppos : Int64) : Nat :=
  (ramdisk.getD 0 + ppos.toUInt64).toNat

/-- A user copy of no bytes does not reach into the memory. -/
def reached (ramdisk : Option UInt64) (ppos : Int64) (moved : Nat)
    (log : List (HeapEvent UInt64)) : List (HeapEvent UInt64) :=
  if moved = 0 then log else .access ramdisk ppos.toUInt64.toNat moved :: log

section
variable {φ : Type} [DecidableEq φ] (size : UInt64)

/-- `alloc` is what `kmalloc` returned, which nobody looks at, and `stale` what stands there. -/
def mycdrv_open (s : State φ) (f : φ) (alloc : Option UInt64) (stale : Bytes) : State φ :=
  { s with
    opened := Function.update s.opened f true
    private_data := Function.update s.private_data f alloc
    memory := match alloc with
      | none => s.memory
      | some a => copyBytes s.memory a.toNat stale 0 size.toNat
    log := match alloc with
      | none => s.log
      | some a => .alloc a :: s.log }

/-- `kfree` does nothing about a null pointer. -/
def mycdrv_release (s : State φ) (f : φ) : State φ :=
  { s with
    opened := Function.update s.opened f false
    -- the `struct file` ends with its release
    private_data := Function.update s.private_data f none
    log := match s.private_data f with
      | none => s.log
      | some a => .free (some a) :: s.log }

omit [DecidableEq φ] in
def mycdrv_read (s : State φ) (f : φ) (fault : Option Fault) (buf : Bytes) (lbuf : UInt64)
    (ppos : Int64) : State φ × CallResult :=
  let ramdisk := s.private_data f
  let moved := copied fault lbuf.toNat
  ({ s with log := reached ramdisk ppos moved s.log },
    Slab.afterCopy (lbuf.toNat - moved) lbuf ppos
      (copyBytes buf 0 s.memory (place ramdisk ppos) moved))

omit [DecidableEq φ] in
def mycdrv_write (s : State φ) (f : φ) (fault : Option Fault) (buf : Bytes) (lbuf : UInt64)
    (ppos : Int64) : State φ × CallResult :=
  let ramdisk := s.private_data f
  let memory := copy_from_user fault s.memory (place ramdisk ppos) buf lbuf.toNat
  ({ s with
    memory := memory
    log := reached ramdisk ppos (overwritten fault lbuf.toNat) s.log },
    Slab.afterCopy (lbuf.toNat - copied fault lbuf.toNat) lbuf ppos memory)

/-- The calls that the VFS makes; the position is the one of the file or one given along with
the call. -/
inductive Call (φ : Type)
  | open_ (f : φ) (alloc : Option UInt64) (stale : Bytes)
  | release (f : φ)
  | read (f : φ) (fault : Option Fault) (buf : Bytes) (lbuf : UInt64) (ppos : FilePos)
  | write (f : φ) (fault : Option Fault) (buf : Bytes) (lbuf : UInt64) (ppos : FilePos)

def Call.file {φ : Type} : Call φ → φ
  | .open_ f _ _ => f
  | .release f => f
  | .read f _ _ _ _ => f
  | .write f _ _ _ _ => f

/-- Two ramdisks that have no byte in common. -/
def Apart (a b : UInt64) : Prop :=
  a.toNat + size.toNat ≤ b.toNat ∨ b.toNat + size.toNat ≤ a.toNat

omit [DecidableEq φ] in
/-- What `kmalloc` returns has not been given to anyone who still has it. The VFS cuts a count
down to an `int`. -/
def Enabled (s : State φ) : Call φ → Prop
  | .open_ f alloc _ => s.opened f = false ∧ ∀ a ∈ alloc, live s.log a = false ∧
      a.toNat + size.toNat ≤ 2 ^ 64 ∧ ∀ b, live s.log b = true → Apart size a b
  | .release f => s.opened f = true
  | .read f _ _ lbuf _ => s.opened f = true ∧ lbuf.toNat < 2 ^ 31
  | .write f _ _ lbuf _ => s.opened f = true ∧ lbuf.toNat < 2 ^ 31

def next (s : State φ) : Call φ → State φ
  | .open_ f alloc stale => mycdrv_open size s f alloc stale
  | .release f => mycdrv_release s f
  | .read f fault buf lbuf ppos => (mycdrv_read s f fault buf lbuf ppos.val).1
  | .write f fault buf lbuf ppos => (mycdrv_write s f fault buf lbuf ppos.val).1

/-- What a transfer returns. -/
def answer (s : State φ) : Call φ → Option CallResult
  | .read f fault buf lbuf ppos => some (mycdrv_read s f fault buf lbuf ppos.val).2
  | .write f fault buf lbuf ppos => some (mycdrv_write s f fault buf lbuf ppos.val).2
  | .open_ _ _ _ | .release _ => none

def machine : Machine (State φ) (Call φ) := ⟨Enabled size, next size⟩

end

/-- What a transfer needs if it is to keep to the ramdisk of its file: that it touches nothing, or
that there is one, and the last byte touched lies in it. -/
def Inside (size : Nat) {φ : Type} (s : State φ) : Call φ → Prop
  | .read f fault _ lbuf ppos =>
    copied fault lbuf.toNat = 0 ∨
      s.private_data f ≠ none ∧ ppos.toNat + copied fault lbuf.toNat ≤ size
  | .write f fault _ lbuf ppos =>
    overwritten fault lbuf.toNat = 0 ∨
      s.private_data f ≠ none ∧ ppos.toNat + overwritten fault lbuf.toNat ≤ size
  | .open_ _ _ _ | .release _ => True

instance (size : Nat) {φ : Type} (s : State φ) : ∀ c : Call φ, Decidable (Inside size s c)
  | .read .. | .write .. => inferInstanceAs (Decidable (_ ∨ _))
  | .open_ .. | .release _ => isTrue trivial

/-- Memory is only reached into where a ramdisk stands that has not been freed, and no ramdisk is
freed twice. -/
structure Safe (size : Nat) {φ : Type} (s : State φ) : Prop where
  disciplined : Disciplined s.log
  inside : ∀ p first n, .access p first n ∈ s.log → first + n ≤ size

/-- What a call leaves of the bytes of its own file. -/
def kept {φ : Type} (store : Bytes) : Call φ → Bytes
  | .open_ _ _ stale => stale
  | .write _ fault buf lbuf ppos => copy_from_user fault store ppos.toNat buf lbuf.toNat
  | .release _ | .read _ _ _ _ _ => store

/-- The bytes of a file, of which its own calls alone decide. -/
def own {φ : Type} [DecidableEq φ] (f : φ) (as : List (Call φ)) : Bytes :=
  (as.filter fun c => c.file = f).foldl kept fun _ => 0

/-- What a transfer owes that finds `store` in its file. -/
def Answered {φ : Type} (store : Bytes) (r : CallResult) : Call φ → Prop
  | .read _ fault buf lbuf ppos =>
    let n := copied fault lbuf.toNat
    r.rval.toInt = n ∧ r.ppos.toInt = (ppos.toNat + n : Nat) ∧
      r.bytes = copyBytes buf 0 store ppos.toNat n
  | .write _ fault _ lbuf ppos =>
    let n := copied fault lbuf.toNat
    r.rval.toInt = n ∧ r.ppos.toInt = (ppos.toNat + n : Nat)
  | .open_ _ _ _ | .release _ => True

section
variable {φ : Type} [DecidableEq φ] {size : UInt64}

theorem own_mine {f : φ} {as : List (Call φ)} {c : Call φ} (mine : c.file = f) :
    own f (as ++ [c]) = kept (own f as) c := by
  unfold own
  rw [List.filter_append, List.foldl_append, List.filter_cons_of_pos (by simpa using mine)]
  rfl

theorem own_other {f : φ} {as : List (Call φ)} {c : Call φ} (other : c.file ≠ f) :
    own f (as ++ [c]) = own f as := by
  unfold own
  rw [List.filter_append, List.filter_cons_of_neg (by simpa using other), List.filter_nil,
    List.append_nil]

theorem afterCopy_moved {lbuf : UInt64} {fault : Option Fault} {p : FilePos} (bytes : Bytes)
    (small : lbuf.toNat < 2 ^ 31) (room : p.toNat + copied fault lbuf.toNat < 2 ^ 63) :
    let r := Slab.afterCopy (lbuf.toNat - copied fault lbuf.toNat) lbuf p.val bytes
    r.rval.toInt = copied fault lbuf.toNat ∧
      r.ppos.toInt = (p.toNat + copied fault lbuf.toNat : Nat) := by
  have le := copied_le fault lbuf.toNat
  generalize copied fault lbuf.toNat = moved at room le
  intro r
  have left : (lbuf - UInt64.ofNat (lbuf.toNat - moved)).toNat = moved := by
    have wide : (UInt64.ofNat (lbuf.toNat - moved)).toNat = lbuf.toNat - moved :=
      UInt64.toNat_ofNat_of_lt' (Nat.lt_of_le_of_lt (Nat.sub_le _ _) lbuf.toNat_lt_size)
    rw [UInt64.toNat_sub_of_le _ _ (UInt64.le_iff_toNat_le.mpr (by omega)), wide]
    omega
  have rval : r.rval.toInt = moved := by
    change ((lbuf - UInt64.ofNat (lbuf.toNat - moved)).toUInt32.toInt32.toInt64).toInt = moved
    rw [narrow_toInt (by omega), left]
  have hp := p.toNat_cast
  refine ⟨rval, ?_⟩
  change (p.val + r.rval).toInt = _
  rw [Int64.toInt_add, rval, ← hp, Int.natCast_add]
  exact Int.bmod_eq_of_le (by omega) (by omega)

/-- Up to the end of a ramdisk the pointer does not wrap. -/
theorem place_inside {a : UInt64} {p : FilePos} (fits : a.toNat + size.toNat ≤ 2 ^ 64)
    (inside : p.toNat < size.toNat) : place (some a) p.val = a.toNat + p.toNat := by
  have wide := p.toUInt64_toNat
  change (a + p.val.toUInt64).toNat = _
  rw [UInt64.toNat_add, wide]
  exact Nat.mod_eq_of_lt (by omega)

/-- The open files that got a ramdisk hold those that are live, no two with a byte in common, and
in each stands what the calls of its file left there. -/
structure Inv (size : Nat) (as : List (Call φ)) (s : State φ) : Prop where
  owned : Owned s.private_data s.log
  inside : ∀ p first n, .access p first n ∈ s.log → first + n ≤ size
  closed : ∀ f, s.opened f = false → s.private_data f = none
  fits : ∀ f a, s.private_data f = some a → a.toNat + size ≤ 2 ^ 64
  apart : ∀ f g a b, f ≠ g → s.private_data f = some a → s.private_data g = some b →
    a.toNat + size ≤ b.toNat ∨ b.toNat + size ≤ a.toNat
  stored : ∀ f a k, s.private_data f = some a → k < size → s.memory (a.toNat + k) = own f as k

theorem inv_init (memory : Bytes) : Inv size.toNat [] (init memory : State φ) := by
  refine ⟨owned_nil, ?_, fun _ _ => rfl, ?_, ?_, ?_⟩
  · intro p first n h
    cases h
  · intro f a h
    cases h
  · intro f g a b _ h
    cases h
  · intro f a k h
    cases h

theorem Inv.safe {as : List (Call φ)} {s : State φ} (h : Inv size.toNat as s) :
    Safe size.toNat s := ⟨h.owned.disciplined, h.inside⟩

/-- A copy into a memory, seen from inside a region of it. -/
theorem copyBytes_shift {memory store src : Bytes} {a p n k : Nat}
    (same : memory (a + k) = store k) :
    copyBytes memory (a + p) src 0 n (a + k) = copyBytes store p src 0 n k := by
  unfold copyBytes
  by_cases within : p ≤ k ∧ k < p + n
  · rw [if_pos within, if_pos (by omega), Nat.add_sub_add_left]
  · rw [if_neg within, if_neg (by omega), same]

theorem mem_reached {ramdisk q : Option UInt64} {ppos : Int64} {moved first n : Nat}
    {log : List (HeapEvent UInt64)} (h : .access q first n ∈ reached ramdisk ppos moved log) :
    moved ≠ 0 ∧ first = ppos.toUInt64.toNat ∧ n = moved ∨ .access q first n ∈ log := by
  unfold reached at h
  split at h
  next => exact Or.inr h
  next some_ =>
    rcases List.mem_cons.mp h with new | old
    · cases new
      exact Or.inl ⟨some_, rfl, rfl⟩
    · exact Or.inr old

/-- A transfer that keeps to the ramdisk of its file adds an access to a live object, or none. -/
theorem Inv.reached_owned {as : List (Call φ)} {s : State φ} (h : Inv size.toNat as s) {f : φ}
    {ppos : Int64} {moved : Nat} (ok : moved = 0 ∨ s.private_data f ≠ none) :
    Owned s.private_data (reached (s.private_data f) ppos moved s.log) := by
  unfold reached
  split
  next => exact h.owned
  next some_ =>
    obtain ⟨a, ha⟩ := Option.ne_none_iff_exists'.mp (ok.resolve_left some_)
    rw [ha]
    exact h.owned.access ha _ _

theorem Inv.reached_inside {as : List (Call φ)} {s : State φ} (h : Inv size.toNat as s)
    {ramdisk : Option UInt64} {p : FilePos} {moved : Nat}
    (ok : moved = 0 ∨ p.toNat + moved ≤ size.toNat) {q : Option UInt64} {first n : Nat}
    (here : .access q first n ∈ reached ramdisk p.val moved s.log) : first + n ≤ size.toNat := by
  rcases mem_reached here with ⟨some_, rfl, rfl⟩ | old
  · rw [p.toUInt64_toNat]
    exact ok.resolve_left some_
  · exact h.inside q first n old

theorem inv_read {as : List (Call φ)} {s : State φ} (h : Inv size.toNat as s) {f : φ}
    {fault : Option Fault} {buf : Bytes} {lbuf : UInt64} {ppos : FilePos}
    (ok : Inside size.toNat s (.read f fault buf lbuf ppos)) :
    Inv size.toNat (as ++ [.read f fault buf lbuf ppos])
      (next size s (.read f fault buf lbuf ppos)) := by
  refine ⟨h.reached_owned (ok.imp_right And.left),
    fun q first n here => h.reached_inside (ok.imp_right And.right) here, h.closed, h.fits,
    h.apart, ?_⟩
  intro g a k hg hk
  by_cases mine : f = g
  · rw [own_mine (c := .read f fault buf lbuf ppos) mine]
    exact h.stored g a k hg hk
  · rw [own_other (c := .read f fault buf lbuf ppos) mine]
    exact h.stored g a k hg hk

theorem inv_write {as : List (Call φ)} {s : State φ} (h : Inv size.toNat as s) {f : φ}
    {fault : Option Fault} {buf : Bytes} {lbuf : UInt64} {ppos : FilePos}
    (ok : Inside size.toNat s (.write f fault buf lbuf ppos)) :
    Inv size.toNat (as ++ [.write f fault buf lbuf ppos])
      (next size s (.write f fault buf lbuf ppos)) := by
  refine ⟨h.reached_owned (ok.imp_right And.left),
    fun q first n here => h.reached_inside (ok.imp_right And.right) here, h.closed, h.fits,
    h.apart, ?_⟩
  intro g b k hg hk
  have before := h.stored g b k hg hk
  change copyBytes s.memory (place (s.private_data f) ppos.val) (arriving fault buf lbuf.toNat) 0
    (overwritten fault lbuf.toNat) (b.toNat + k) = _
  by_cases nothing : overwritten fault lbuf.toNat = 0
  · rw [nothing, copyBytes_zero]
    by_cases mine : f = g
    · rw [own_mine (c := .write f fault buf lbuf ppos) mine, kept, copy_from_user, nothing,
        copyBytes_zero]
      exact before
    · rw [own_other (c := .write f fault buf lbuf ppos) mine]
      exact before
  · obtain ⟨got, inside⟩ := ok.resolve_left nothing
    obtain ⟨a, ha⟩ := Option.ne_none_iff_exists'.mp got
    rw [ha, place_inside (h.fits f a ha) (by omega)]
    by_cases mine : f = g
    · have same : a = b := Option.some.inj (ha.symm.trans (mine ▸ hg))
      rw [own_mine (c := .write f fault buf lbuf ppos) mine, same]
      exact copyBytes_shift before
    · have apart := h.apart f g a b mine ha hg
      rw [own_other (c := .write f fault buf lbuf ppos) mine, copyBytes_outside (by omega)]
      exact before

theorem inv_release {as : List (Call φ)} {s : State φ} (h : Inv size.toNat as s) (f : φ) :
    Inv size.toNat (as ++ [.release f]) (next size s (.release f)) := by
  have others : ∀ {g a}, Function.update s.private_data f none g = some a →
      f ≠ g ∧ s.private_data g = some a := by
    intro g a hg
    by_cases mine : g = f
    · rw [mine, Function.update_self] at hg
      cases hg
    · rw [Function.update_of_ne mine] at hg
      exact ⟨Ne.symm mine, hg⟩
  refine ⟨?_, ?_, ?_, fun g a hg => h.fits g a (others hg).2,
    fun g k a b differs hg hk => h.apart g k a b differs (others hg).2 (others hk).2, ?_⟩
  · cases ha : s.private_data f with
    | none =>
      have same : Function.update s.private_data f none = s.private_data := by
        rw [← ha]
        exact Function.update_eq_self f s.private_data
      simp only [next, mycdrv_release, ha, same]
      exact h.owned
    | some a =>
      simp only [next, mycdrv_release, ha]
      exact h.owned.free ha
  · intro q first n here
    refine h.inside q first n ?_
    cases ha : s.private_data f with
    | none => simpa only [next, mycdrv_release, ha] using here
    | some a => simpa [next, mycdrv_release, ha] using here
  · intro g closed
    by_cases mine : g = f
    · exact mine ▸ Function.update_self ..
    · refine (Function.update_of_ne mine ..).trans (h.closed g ?_)
      exact (Function.update_of_ne mine ..).symm.trans closed
  · intro g a k hg hk
    rw [own_other (c := .release f) (others hg).1]
    exact h.stored g a k (others hg).2 hk

theorem inv_open {as : List (Call φ)} {s : State φ} (h : Inv size.toNat as s) {f : φ}
    {alloc : Option UInt64} {stale : Bytes} (enabled : Enabled size s (.open_ f alloc stale)) :
    Inv size.toNat (as ++ [.open_ f alloc stale]) (next size s (.open_ f alloc stale)) := by
  obtain ⟨shut, granted⟩ := enabled
  have empty := h.closed f shut
  have opened : ∀ g, Function.update s.opened f true g = false → g ≠ f ∧ s.opened g = false := by
    intro g hg
    by_cases mine : g = f
    · rw [mine, Function.update_self] at hg
      cases hg
    · rw [Function.update_of_ne mine] at hg
      exact ⟨mine, hg⟩
  cases alloc with
  | none =>
    have same : Function.update s.private_data f none = s.private_data := by
      rw [← empty]
      exact Function.update_eq_self f s.private_data
    simp only [next, mycdrv_open, same]
    refine ⟨h.owned, h.inside, fun g hg => h.closed g (opened g hg).2, h.fits, h.apart, ?_⟩
    intro g a k hg hk
    have other : f ≠ g := by
      rintro rfl
      rw [empty] at hg
      cases hg
    rw [own_other (c := .open_ f none stale) other]
    exact h.stored g a k hg hk
  | some a =>
    obtain ⟨fresh, fits, clear⟩ := granted a rfl
    have held : ∀ {g b}, Function.update s.private_data f (some a) g = some b →
        g = f ∧ a = b ∨ g ≠ f ∧ s.private_data g = some b := by
      intro g b hg
      by_cases mine : g = f
      · rw [mine, Function.update_self] at hg
        exact Or.inl ⟨mine, Option.some.inj hg⟩
      · rw [Function.update_of_ne mine] at hg
        exact Or.inr ⟨mine, hg⟩
    have away : ∀ {g b}, s.private_data g = some b → Apart size a b :=
      fun hg => clear _ (h.owned.live hg)
    refine ⟨h.owned.alloc empty fresh, ?_, ?_, ?_, ?_, ?_⟩
    · intro q first n here
      refine h.inside q first n ?_
      simpa [next, mycdrv_open] using here
    · intro g hg
      obtain ⟨differs, closed⟩ := opened g hg
      exact (Function.update_of_ne differs ..).trans (h.closed g closed)
    · intro g b hg
      rcases held hg with ⟨_, rfl⟩ | ⟨_, old⟩
      · exact fits
      · exact h.fits g b old
    · intro g k b c differs hg hk
      rcases held hg with ⟨rfl, rfl⟩ | ⟨_, old⟩
      · rcases held hk with ⟨rfl, _⟩ | ⟨_, old'⟩
        · exact absurd rfl differs
        · exact away old'
      · rcases held hk with ⟨rfl, rfl⟩ | ⟨_, old'⟩
        · exact (away old).symm
        · exact h.apart g k b c differs old old'
    · intro g b k hg hk
      change copyBytes s.memory a.toNat stale 0 size.toNat (b.toNat + k) = _
      rcases held hg with ⟨rfl, rfl⟩ | ⟨differs, old⟩
      · rw [own_mine (f := g) (c := .open_ g (some a) stale) rfl, copyBytes_inside hk, Nat.zero_add]
        rfl
      · have apart : Apart size a b := away old
        unfold Apart at apart
        rw [own_other (c := .open_ f (some a) stale) (Ne.symm differs),
          copyBytes_outside (by omega)]
        exact h.stored g b k old hk

theorem inv_next {as : List (Call φ)} {s : State φ} {c : Call φ} (h : Inv size.toNat as s)
    (enabled : Enabled size s c) (ok : Inside size.toNat s c) :
    Inv size.toNat (as ++ [c]) (next size s c) := by
  cases c with
  | open_ f alloc stale => exact inv_open h enabled
  | release f => exact inv_release h f
  | read f fault buf lbuf ppos => exact inv_read h ok
  | write f fault buf lbuf ppos => exact inv_write h ok

omit [DecidableEq φ] in
/-- A transfer that leaves the ramdisk of its file is found out by what it touched. -/
theorem not_safe_reached {s t : State φ} {f : φ} {p : FilePos} {moved : Nat}
    (log : t.log = reached (s.private_data f) p.val moved s.log)
    (outside : ¬ (moved = 0 ∨ s.private_data f ≠ none ∧ p.toNat + moved ≤ size.toNat)) :
    ¬ Safe size.toNat t := by
  intro safe
  have some_ : moved ≠ 0 := fun nothing => outside (Or.inl nothing)
  have touched : t.log = .access (s.private_data f) p.toNat moved :: s.log := by
    rw [log, reached, if_neg some_, p.toUInt64_toNat]
  have disciplined := safe.disciplined
  rw [touched] at disciplined
  obtain ⟨⟨a, ha, _⟩, _⟩ := disciplined
  have within := safe.inside _ _ _ (by rw [touched]; exact List.mem_cons_self)
  exact outside (Or.inr ⟨by rw [ha]; exact Option.some_ne_none a, within⟩)

theorem not_safe_next {s : State φ} {c : Call φ} (bad : ¬ Inside size.toNat s c) :
    ¬ Safe size.toNat (next size s c) := by
  cases c with
  | open_ f alloc stale => exact absurd trivial bad
  | release f => exact absurd trivial bad
  | read f fault buf lbuf ppos => exact not_safe_reached rfl bad
  | write f fault buf lbuf ppos => exact not_safe_reached rfl bad

/-- The bytes a transfer delivers are those of its file. -/
theorem answered {as : List (Call φ)} {s : State φ} {c : Call φ} (small : size.toNat < 2 ^ 31)
    (h : Inv size.toNat as s) (enabled : Enabled size s c) (ok : Inside size.toNat s c)
    {r : CallResult} (returned : answer s c = some r) : Answered (own c.file as) r c := by
  have room : ∀ {f} {moved touched : Nat} {p : FilePos}, moved ≤ touched →
      (touched = 0 ∨ s.private_data f ≠ none ∧ p.toNat + touched ≤ size.toNat) →
      p.toNat + moved < 2 ^ 63 := by
    intro f moved touched p le ok
    have cast := p.toNat_cast
    have lt := p.val.toInt_lt
    omega
  cases c with
  | open_ f alloc stale => trivial
  | release f => trivial
  | write f fault buf lbuf ppos =>
    cases returned
    exact afterCopy_moved _ enabled.2 (room (overwritten_bounds fault lbuf.toNat).1 ok)
  | read f fault buf lbuf ppos =>
    cases returned
    obtain ⟨rval, pos⟩ := afterCopy_moved (copyBytes buf 0 s.memory
      (place (s.private_data f) ppos.val) (copied fault lbuf.toNat)) enabled.2 (room (Nat.le_refl _) ok)
    refine ⟨rval, pos, ?_⟩
    change copyBytes buf 0 s.memory (place (s.private_data f) ppos.val) (copied fault lbuf.toNat) =
      copyBytes buf 0 (own f as) ppos.toNat (copied fault lbuf.toNat)
    by_cases nothing : copied fault lbuf.toNat = 0
    · rw [nothing, copyBytes_zero, copyBytes_zero]
    · obtain ⟨got, inside⟩ := ok.resolve_left nothing
      obtain ⟨a, ha⟩ := Option.ne_none_iff_exists'.mp got
      rw [ha, place_inside (h.fits f a ha) (by omega)]
      funext k
      by_cases first : k < copied fault lbuf.toNat
      · rw [copyBytes_front first, copyBytes_front first, Nat.add_assoc]
        exact h.stored f a _ ha (by omega)
      · rw [copyBytes_outside (by omega), copyBytes_outside (by omega)]

theorem inv_run {memory : Bytes} {as : List (Call φ)} {s : State φ}
    (h : Run (machine size) (init memory) as s)
    (meets : Meets (machine size) (Inside size.toNat) (init memory) as) :
    Inv size.toNat as s := by
  induction h with
  | start => exact inv_init memory
  | next previous enabled ih =>
    exact inv_next (ih (meets_before meets)) enabled (meets_last meets previous)

/-- Nothing is checked, so memory is left alone but for the ramdisks of open files exactly if every
transfer keeps to its own. Then each file reads what its own calls left in its ramdisk, whatever the
others do, and what was allocated has been freed once when all are closed. -/
theorem ramdisks_private_iff (PAGE_SIZE : LabChar.PageSize) {memory : Bytes} {as : List (Call φ)}
    {s : State φ} (h : Run (machine (LabChar.ramdisk_size PAGE_SIZE)) (init memory) as s) :
    let size := LabChar.ramdisk_size PAGE_SIZE
    (Always (machine size) (fun _ => Safe size.toNat) (init memory) as ↔
      Meets (machine size) (Inside size.toNat) (init memory) as) ∧
    (Meets (machine size) (Inside size.toNat) (init memory) as →
      (∀ pre c post t r, as = pre ++ c :: post → Run (machine size) (init memory) pre t →
        answer t c = some r → Answered (own c.file pre) r c) ∧
      ((∀ f, s.opened f = false) →
        ∀ a, s.log.count (.alloc a) = s.log.count (.free (some a)))) := by
  intro size
  have small : size.toNat < 2 ^ 31 := LabChar.ramdisk_size_small PAGE_SIZE
  refine ⟨always_iff_meets (I := fun as s => Inv size.toNat as s) (inv_init memory) ?_ ?_ ?_ h, ?_⟩
  · intro as s c inv enabled ok
    exact inv_next inv enabled ok
  · intro as s inv
    exact inv.safe
  · intro as s c _ _ bad
    exact not_safe_next bad
  · intro meets
    refine ⟨?_, ?_⟩
    · rintro pre c post t r rfl run returned
      obtain ⟨u, before, enabled⟩ := run_before h
      have same := run_unique before run
      subst same
      exact answered small (inv_run before (meets_before meets)) enabled
        (meets pre c post u rfl before) returned
    · intro closed a
      have inv := inv_run h meets
      have gone := inv.owned.none_live (fun f => inv.closed f (closed f)) a
      have counted := disciplined_count inv.owned.disciplined a
      rwa [gone] at counted

/-- Two files with ramdisks that touch each other. The first one reads back what it wrote, and
behind that what stood there when it was opened. -/
theorem ramdisks_private_iff_neighbours :
    let size : UInt64 := LabChar.ramdisk_size ⟨4096, by decide⟩
    let writes : List (Call (Fin 2)) := [.open_ 0 (some 0x10000) fun _ => 7,
      .open_ 1 (some 0x20000) fun _ => 9, .write 0 none (fun _ => 1) 4 ⟨0, by decide⟩,
      .write 1 none (fun _ => 2) 6 ⟨0, by decide⟩]
    let read : Call (Fin 2) := .read 0 none (fun _ => 0) 8 ⟨0, by decide⟩
    Always (machine size) (fun _ => Safe size.toNat) (init fun _ => 0) (writes ++ [read]) ∧
      ∃ r, answer ((machine size).replay (init fun _ => 0) writes) read = some r ∧
        r.rval.toInt = 8 ∧ r.bytes 3 = 1 ∧ r.bytes 4 = 7 := by
  intro size writes read
  have alone : ∀ {b}, live [.alloc 0x10000] b = true → Apart size 0x20000 b := by
    intro b hb
    have eq : 0x10000 = b := by simpa [live] using hb
    rw [← eq]
    exact Or.inr (by decide)
  have before : Run (machine size) (init fun _ => 0) writes
      ((machine size).replay (init fun _ => 0) writes) := by
    refine run_of_admits ⟨⟨rfl, ?_⟩, ⟨rfl, ?_⟩, ⟨rfl, by decide⟩, ⟨rfl, by decide⟩, trivial⟩
    · rintro a ⟨⟩
      exact ⟨rfl, by decide, fun b hb => by cases hb⟩
    · rintro a ⟨⟩
      exact ⟨rfl, by decide, fun b hb => alone hb⟩
  have run := Run.next (a := read) before ⟨rfl, by decide⟩
  obtain ⟨safe, kept⟩ := ramdisks_private_iff ⟨4096, by decide⟩ run
  have meets : Meets (machine size) (Inside size.toNat) (init fun _ => 0) (writes ++ [read]) :=
    meets_of_replay (by decide)
  refine ⟨safe.mpr meets, _, rfl, ?_⟩
  obtain ⟨rval, _, bytes⟩ := (kept meets).1 writes read [] _ _ rfl before rfl
  exact ⟨rval, by rw [bytes]; decide, by rw [bytes]; decide⟩

/-- One byte behind its end is the first byte of the next file's. -/
example :
    let size : UInt64 := LabChar.ramdisk_size ⟨4096, by decide⟩
    let calls : List (Call (Fin 2)) := [.open_ 0 (some 0x10000) fun _ => 7,
      .open_ 1 (some 0x20000) fun _ => 9, .write 0 none (fun _ => 1) 1 ⟨0x10000, by decide⟩]
    let read : Call (Fin 2) := .read 1 none (fun _ => 0) 1 ⟨0, by decide⟩
    own 1 calls 0 = 9 ∧
      ∃ r, answer ((machine size).replay (init fun _ => 0) calls) read = some r ∧
        r.bytes 0 = 1 := by
  intro size calls read
  exact ⟨rfl, _, rfl, by decide⟩

end

end DeviceDriverEx.LabPriv
