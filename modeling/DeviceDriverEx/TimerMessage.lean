import DeviceDriverEx.CString
import DeviceDriverEx.Decimal
import DeviceDriverEx.Globalmem

namespace DeviceDriverEx.TimerMessage

/-- `#define SIZE (128)` of 11_LAB1, 11_LAB2 and 11_LAB3. -/
def SIZE : Nat := 128

/-- A write of the bytes `buffer`, whose pages may fault. -/
structure Call where
  buffer : List UInt8
  fault : Option Fault

/-- `count` behind `if (count > SIZE) count = SIZE;` -/
def Call.count (c : Call) : Nat := if c.buffer.length > SIZE then SIZE else c.buffer.length

/-- `count - copy_from_user(rcv, buf, count)` -/
def Call.n (c : Call) : Nat := copied c.fault c.count

/-- The bytes that came across. -/
def Call.text (c : Call) : List UInt8 := c.buffer.take c.n

/-- The stack from `rcv` on behind the copy. -/
def Call.rcv (c : Call) (stack : List UInt8) : List UInt8 :=
  copy_to_front c.fault stack c.buffer c.count

/-- The indices of `rcv` that were stored to, how many bytes of it were looked at, and what was
printed and returned. -/
structure Received where
  stored : List Nat
  looked : Nat
  printed : List UInt8
  rval : Int32

/-- `pr_info("\nGet Message: %s", rcv)` -/
def line (text : List UInt8) : List UInt8 := ascii "\nGet Message: ".toList ++ text

/-- The one of 11_LAB2, which ends the text. -/
def MKtimer_write (c : Call) (stack : List UInt8) : Received :=
  let rcv := (c.rcv stack).set c.n 0
  ⟨List.range (overwritten c.fault c.count) ++ [c.n], scanned rcv, line (cstring rcv),
    Int32.ofNat c.n⟩

/-- The one of 11_LAB1 and of 11_LAB3. -/
def timers_write (c : Call) (stack : List UInt8) : Received :=
  let rcv := c.rcv stack
  ⟨List.range (overwritten c.fault c.count), scanned rcv, line (cstring rcv), Int32.ofNat c.n⟩

/-- Nothing outside `rcv` is touched, and what is printed is the text that came across. -/
structure InBounds (c : Call) (r : Received) : Prop where
  stored : ∀ i ∈ r.stored, i < SIZE
  looked : r.looked ≤ SIZE
  printed : r.printed = line (cstring c.text)

section
variable {c : Call} {stack : List UInt8}

theorem Call.bounds (c : Call) :
    c.n ≤ c.count ∧ c.count ≤ SIZE ∧ c.count ≤ c.buffer.length := by
  have le := copied_le c.fault c.count
  refine ⟨le, ?_⟩
  unfold count
  split <;> omega

theorem Call.text_length (c : Call) : c.text.length = c.n := by
  obtain ⟨moved, _, inside⟩ := c.bounds
  exact List.length_take_of_le (by omega)

/-- Whatever follows the text on the stack, it is long enough. -/
theorem copy_behind (c : Call) (room : SIZE ≤ stack.length) : ∃ rest,
    c.rcv stack = c.text ++ rest ∧ SIZE ≤ c.n + rest.length := by
  obtain ⟨moved, clamped, inside⟩ := c.bounds
  have whole : (c.rcv stack).length = stack.length := copy_to_front_length inside (by omega)
  have split : c.rcv stack = c.text ++ _ := List.append_assoc ..
  refine ⟨_, split, ?_⟩
  rw [split, List.length_append, c.text_length] at whole
  omega

theorem stored_inside {i : Nat} (h : i ∈ List.range (overwritten c.fault c.count)) :
    i < SIZE := by
  obtain ⟨_, clamped, _⟩ := c.bounds
  have stored := (overwritten_bounds c.fault c.count).2
  rw [List.mem_range] at h
  omega

theorem inBounds_of_nul {r : Received} {rest : List UInt8} (nul : 0 ∈ c.text)
    (stored : ∀ i ∈ r.stored, i < SIZE) (looked : r.looked = scanned (c.text ++ rest))
    (printed : r.printed = line (cstring (c.text ++ rest))) : InBounds c r := by
  obtain ⟨moved, clamped, _⟩ := c.bounds
  have length := c.text_length
  have inside := scanned_append nul rest
  refine ⟨stored, by omega, ?_⟩
  rw [printed, cstring_append nul]

/-- A NUL behind the text ends it. -/
theorem inBounds_of_ended {r : Received} {rest : List UInt8} (room : c.n < SIZE)
    (stored : ∀ i ∈ r.stored, i < SIZE) (looked : r.looked = scanned (c.text ++ 0 :: rest))
    (printed : r.printed = line (cstring (c.text ++ 0 :: rest))) : InBounds c r := by
  by_cases nul : 0 ∈ c.text
  · exact inBounds_of_nul nul stored looked printed
  · have length := c.text_length
    rw [scanned_nul nul] at looked
    refine ⟨stored, by omega, ?_⟩
    rw [printed, (cstring_ends_iff nul 0 rest).mpr rfl]

theorem MKtimer_write_inBounds (room : c.n < SIZE) (large : SIZE ≤ stack.length) :
    InBounds c (MKtimer_write c stack) := by
  obtain ⟨rest, copy, length⟩ := copy_behind c large
  obtain ⟨b, rest, rfl⟩ := List.exists_cons_of_length_pos (show 0 < rest.length by omega)
  have ended : (c.rcv stack).set c.n 0 = c.text ++ 0 :: rest := by
    rw [copy, ← c.text_length, List.set_append_right _ _ (Nat.le_refl _), Nat.sub_self]
    rfl
  refine inBounds_of_ended room (fun i hi => ?_) (congrArg scanned ended)
    (congrArg (fun rcv => line (cstring rcv)) ended)
  rcases List.mem_append.mp hi with copy | last
  · exact stored_inside copy
  · rw [List.mem_singleton.mp last]
    exact room

theorem timers_write_inBounds (ended : 0 ∈ c.text ∨ c.n < overwritten c.fault c.count) :
    InBounds c (timers_write c stack) := by
  rcases ended with nul | cleared
  · have split : c.rcv stack = c.text ++ _ := List.append_assoc ..
    exact inBounds_of_nul nul (fun i => stored_inside) (congrArg scanned split)
      (congrArg (fun rcv => line (cstring rcv)) split)
  · obtain ⟨_, clamped, _⟩ := c.bounds
    have stored := (overwritten_bounds c.fault c.count).2
    obtain ⟨rest, copy⟩ := @copy_to_front_padded c.fault c.count stack c.buffer cleared
    exact inBounds_of_ended (by omega) (fun i => stored_inside) (congrArg scanned copy)
      (congrArg (fun rcv => line (cstring rcv)) copy)

/-- On a stack full of ones a text that is not ended goes on, or is looked for behind `rcv`. -/
theorem ended_of_inBounds (kept : InBounds c (timers_write c (List.replicate SIZE 1))) :
    0 ∈ c.text ∨ c.n < overwritten c.fault c.count := by
  by_contra open_
  obtain ⟨no_nul, behind⟩ := not_or.mp open_
  obtain ⟨moved, clamped, _⟩ := c.bounds
  have length := c.text_length
  have looked := kept.looked
  have printed := kept.printed
  have copy : c.rcv (List.replicate SIZE 1) = c.text ++ List.replicate (SIZE - c.n) 1 :=
    (copy_to_front_kept behind).trans (congrArg (c.text ++ ·) List.drop_replicate)
  dsimp only [timers_write] at looked printed
  rw [copy] at looked printed
  rcases Nat.lt_or_ge c.n SIZE with room | full
  · have some_left : SIZE - c.n = SIZE - c.n - 1 + 1 := by omega
    rw [some_left, List.replicate_succ, line, line, List.append_right_inj,
      cstring_ends_iff no_nul] at printed
    exact absurd printed (by decide)
  · have outside := length_lt_scanned no_nul (List.replicate (SIZE - c.n) 1)
    omega

end

/-- For every content of the stack: the message of 11_LAB2 is kept within bounds exactly if fewer
bytes than `rcv` has come across, and those of 11_LAB1 and 11_LAB3 exactly if they bring a NUL or
the kernel has cleared some of the rest. -/
theorem message_in_bounds_iff (c : Call) :
    ((∀ stack : List UInt8, SIZE ≤ stack.length → InBounds c (MKtimer_write c stack)) ↔
      c.n < SIZE) ∧
    ((∀ stack : List UInt8, SIZE ≤ stack.length → InBounds c (timers_write c stack)) ↔
      0 ∈ c.text ∨ ∃ f ∈ c.fault, f.pads = true ∧ f.after < c.count) := by
  have large : SIZE ≤ (List.replicate SIZE (1 : UInt8)).length :=
    Nat.le_of_eq (List.length_replicate ..).symm
  rw [← copied_lt_overwritten_iff]
  refine ⟨⟨fun kept => ?_, fun room _ => MKtimer_write_inBounds room⟩,
    ⟨fun kept => ended_of_inBounds (kept _ large), fun ended _ _ => timers_write_inBounds ended⟩⟩
  exact (kept _ large).stored c.n (List.mem_append_right _ List.mem_cons_self)

/-- A message of 128 letters is ended outside `rcv`; one of a single letter is printed with what was
on the stack. -/
theorem message_out_of_bounds :
    let full : Call := ⟨List.replicate 128 65, none⟩
    let one : Call := ⟨[65], none⟩
    (∀ stack, 128 ∈ (MKtimer_write full stack).stored ∧
      ¬ InBounds full (MKtimer_write full stack)) ∧
    ∀ stack, ¬ InBounds one (timers_write one (66 :: 66 :: stack)) := by
  intro full one
  have whole : full.n = 128 := by simp [full, Call.n, Call.count, copied, SIZE]
  have end_ (stack : List UInt8) : 128 ∈ (MKtimer_write full stack).stored :=
    List.mem_append_right _ (List.mem_singleton.mpr whole.symm)
  refine ⟨fun stack => ⟨end_ stack, fun kept => ?_⟩, fun stack kept => ?_⟩
  · exact absurd (kept.stored 128 (end_ stack)) (by decide)
  · have printed := kept.printed
    have copy : one.rcv (66 :: 66 :: stack) = one.text ++ 66 :: stack :=
      copy_to_front_kept (by decide)
    dsimp only [timers_write] at printed
    rw [copy, line, line, List.append_right_inj] at printed
    have stale : (66 : UInt8) = 0 := (cstring_ends_iff (by decide) 66 stack).mp printed
    exact absurd stale (by decide)

end DeviceDriverEx.TimerMessage
