import DeviceDriverEx.ProcSig

namespace DeviceDriverEx.ProcSig

/-- The number behind an entry, and what its text starts with. -/
def numberOf {τ : Type} (flag : Int32) (s : State τ) : Int32 :=
  if flag = FLAG_SIG then s.sigid else s.pid

def label (flag : Int32) : List UInt8 :=
  ascii (if flag = FLAG_SIG then "tx_sig: " else "rx_PID: ").toList

/-- What a write owes to the bytes `text` that came across: the number that they stand for is stored
and printed, and nothing outside the eight bytes of `buf` is looked at or changed. -/
structure KeepsNumber {τ : Type} (flag : Int32) (text stack : List UInt8) (w : Written τ) : Prop where
  stored : numberOf flag w.state = (simple_strtol text).toInt32
  inside : examined w.stack ≤ 8
  frame : w.stack.drop 8 = stack.drop 8
  printed : (read_entry w.state flag).1 =
    label flag ++ decimal (simple_strtol text).toInt32.toInt ++ [10]

section
variable {τ : Type} {s : State τ} {tasks : List (τ × Int32)} {flag : Int32} {fault : Option Fault}
  {buffer stack : List UInt8}

/-- Either entry stores the number that the stack from `buf` on stands for. -/
theorem write_number (entry : flag = FLAG_PID ∨ flag = FLAG_SIG) :
    let w := write_entry s tasks flag fault buffer stack
    w.stack = copy_to_front fault stack buffer buffer.length ∧
      numberOf flag w.state = (simple_strtol (copy_to_front fault stack buffer buffer.length)).toInt32 := by
  rcases entry with rfl | rfl
  · exact ⟨rfl, rfl⟩
  · exact ⟨rfl, rfl⟩

theorem read_number (entry : flag = FLAG_PID ∨ flag = FLAG_SIG) :
    (read_entry s flag).1 = label flag ++ decimal (numberOf flag s).toInt ++ [10] := by
  rcases entry with rfl | rfl
  · rfl
  · rfl

theorem text_length (fault : Option Fault) (buffer : List UInt8) :
    (buffer.take (copied fault buffer.length)).length = copied fault buffer.length :=
  List.length_take_of_le (copied_le fault buffer.length)

theorem copy_drop (short : buffer.length < 8) :
    (copy_to_front fault stack buffer buffer.length).drop 8 = stack.drop 8 := by
  have stored := overwritten_bounds fault buffer.length
  have taken := text_length fault buffer
  have front : (buffer.take (copied fault buffer.length) ++
      List.replicate (overwritten fault buffer.length - copied fault buffer.length) 0).length =
      overwritten fault buffer.length := by
    rw [List.length_append, taken, List.length_replicate]
    omega
  rw [copy_to_front, List.drop_append, front, List.drop_eq_nil_of_le (by omega), List.nil_append,
    List.drop_drop]
  congr 1
  omega

/-- The number is kept if the stack starts with a text that stands for it and ends it. -/
theorem keepsNumber_of_stops (entry : flag = FLAG_PID ∨ flag = FLAG_SIG)
    (short : buffer.length < 8) {text rest : List UInt8}
    (copy : copy_to_front fault stack buffer buffer.length = text ++ rest) (stops : Stops text)
    (few : text.length ≤ buffer.length)
    (same : simple_strtol text = simple_strtol (buffer.take (copied fault buffer.length))) :
    KeepsNumber flag (buffer.take (copied fault buffer.length)) stack
      (write_entry s tasks flag fault buffer stack) := by
  obtain ⟨memory, number⟩ := @write_number τ s tasks flag fault buffer stack entry
  obtain ⟨value, reach⟩ := strtol_append stops rest
  have stored : numberOf flag (write_entry s tasks flag fault buffer stack).state =
      (simple_strtol (buffer.take (copied fault buffer.length))).toInt32 := by
    rw [number, copy, value, same]
  refine ⟨stored, ?_, ?_, ?_⟩
  · have inside := (stops_iff text).mp stops
    rw [memory, copy, reach]
    omega
  · rw [memory, copy_drop short]
  · rw [read_number entry, stored]

/-- A text that ends its number is all that matters, and a byte that is cleared behind the text ends
it, too. -/
theorem keepsNumber_of_ended (entry : flag = FLAG_PID ∨ flag = FLAG_SIG)
    (short : buffer.length < 8)
    (ended : Stops (buffer.take (copied fault buffer.length)) ∨
      copied fault buffer.length < overwritten fault buffer.length) :
    KeepsNumber flag (buffer.take (copied fault buffer.length)) stack
      (write_entry s tasks flag fault buffer stack) := by
  rcases ended with stops | cleared
  · exact keepsNumber_of_stops entry short (List.append_assoc ..) stops (List.length_take_le' ..) rfl
  · obtain ⟨rest, copy⟩ := @copy_to_front_padded fault buffer.length stack buffer cleared
    obtain ⟨stops, same⟩ := strtol_nul (buffer.take (copied fault buffer.length))
    have stored := (overwritten_bounds fault buffer.length).2
    have taken := text_length fault buffer
    refine keepsNumber_of_stops entry short (copy.trans (List.append_cons ..)) stops ?_ same
    rw [List.length_append, taken, List.length_singleton]
    omega

/-- In front of a stack of ones the number goes on behind `buf`. -/
theorem ended_of_keepsNumber (entry : flag = FLAG_PID ∨ flag = FLAG_SIG)
    (short : buffer.length < 8)
    (keeps : KeepsNumber flag (buffer.take (copied fault buffer.length)) (List.replicate 9 49)
      (write_entry s tasks flag fault buffer (List.replicate 9 49))) :
    Stops (buffer.take (copied fault buffer.length)) ∨
      copied fault buffer.length < overwritten fault buffer.length := by
  by_contra open_
  obtain ⟨goes_on, kept⟩ := not_or.mp open_
  have few := copied_le fault buffer.length
  have taken := text_length fault buffer
  have past := strtol_ones goes_on (9 - copied fault buffer.length)
  have inside := keeps.inside
  rw [(write_number entry).1, copy_to_front_kept kept, List.drop_replicate] at inside
  rw [List.length_append, taken, List.length_replicate] at past
  omega

end

/-- The number stored is that of the bytes that came across, whatever is on the stack, without a
look behind `buf`, exactly if these bytes end the number themselves or the kernel has cleared the
byte behind them. A decimal number with something behind it that is not a digit ends itself, and is
read back. -/
theorem number_kept_iff {τ : Type} (s : State τ) (tasks : List (τ × Int32)) {flag : Int32}
    (entry : flag = FLAG_PID ∨ flag = FLAG_SIG) (fault : Option Fault) {buffer : List UInt8}
    (short : buffer.length < 8) :
    let text := buffer.take (copied fault buffer.length)
    ((∀ stack, 8 ≤ stack.length →
      KeepsNumber flag text stack (write_entry s tasks flag fault buffer stack)) ↔
        Stops text ∨ ∃ f ∈ fault, f.pads = true ∧ f.after < buffer.length) ∧
    ∀ (z : Int32) (c : UInt8), Terminator c → text = decimal z.toInt ++ [c] →
      ∀ stack, 8 ≤ stack.length →
        let w := write_entry s tasks flag fault buffer stack
        numberOf flag w.state = z ∧
          (read_entry w.state flag).1 = label flag ++ decimal z.toInt ++ [10] := by
  intro text
  rw [← copied_lt_overwritten_iff]
  refine ⟨⟨fun keeps => ?_, fun ended stack _ => ?_⟩, fun z c ends written stack _ => ?_⟩
  · exact ended_of_keepsNumber entry short (keeps _ (by decide))
  · exact keepsNumber_of_ended entry short ended
  · have stops : Stops text := written ▸ stops_decimal ends z.toInt
    have keeps := @keepsNumber_of_ended τ s tasks flag fault buffer stack entry short (.inl stops)
    have value : (simple_strtol text).toInt32 = z := by
      have low := z.le_toInt
      have high := z.toInt_lt
      have whole := strtol_decimal ends [] (show z.toInt.natAbs < 2 ^ 63 by omega)
      rw [← Int32.toInt_inj, Int64.toInt_toInt32, written, whole]
      exact Int.bmod_eq_of_le (by omega) (by omega)
    have stored := keeps.stored
    have printed := keeps.printed
    rw [value] at stored printed
    exact ⟨stored, printed⟩

/-- `-42` and a newline; and a `1` that a fault cuts off from a `2`, where the kernel clears. -/
theorem number_kept_iff_newline :
    (∀ stack, 8 ≤ stack.length →
      let w := write_entry (init : State Unit) [] FLAG_SIG none [45, 52, 50, 10] stack
      numberOf FLAG_SIG w.state = -42 ∧ KeepsNumber FLAG_SIG [45, 52, 50, 10] stack w) ∧
    ∀ stack, 8 ≤ stack.length → KeepsNumber FLAG_PID [49] stack
      (write_entry (init : State Unit) [] FLAG_PID (some ⟨1, true⟩) [49, 50] stack) := by
  obtain ⟨kept, decimals⟩ := @number_kept_iff Unit init [] FLAG_SIG (Or.inr rfl) none
    [45, 52, 50, 10] (by decide)
  obtain ⟨cut, _⟩ := @number_kept_iff Unit init [] FLAG_PID (Or.inl rfl) (some ⟨1, true⟩)
    [49, 50] (by decide)
  refine ⟨fun stack room => ?_, cut.mpr (.inr ⟨_, rfl, rfl, by decide⟩)⟩
  exact ⟨(decimals (-42) 10 ⟨by decide, by decide⟩ (by decide) stack room).1,
    kept.mpr (.inl (by decide)) stack room⟩

/-- A single `1` is stored as 1 in front of zeros, as another number in front of ones, and then bytes
behind `buf` are looked at. -/
theorem number_depends_on_stack :
    let w (stack : List UInt8) := write_entry (init : State Unit) [] FLAG_PID none [49] stack
    (w (List.replicate 9 0)).state.pid = 1 ∧ (w (List.replicate 9 49)).state.pid = 111111111 ∧
      examined (w (List.replicate 9 49)).stack = 10 ∧
      ¬ KeepsNumber FLAG_PID [49] (List.replicate 9 49) (w (List.replicate 9 49)) := by
  intro w
  have reach : examined (w (List.replicate 9 49)).stack = 10 := by decide
  refine ⟨by decide, by decide, reach, fun keeps => ?_⟩
  have inside := keeps.inside
  omega

end DeviceDriverEx.ProcSig
