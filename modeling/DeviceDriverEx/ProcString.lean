import DeviceDriverEx.CString
import DeviceDriverEx.Decimal
import DeviceDriverEx.Globalmem
import DeviceDriverEx.Machine

namespace DeviceDriverEx.ProcString

/-- `#define STR_lEN (128)` -/
def STR_lEN : Nat := 128

/-- The variables of 14_LAB2 and of 14_LAB3. -/
structure State where
  str : List UInt8
  n : Int32
  length : str.length = STR_lEN

/-- `static char str[STR_lEN] = "hello";` -/
def init : State := ⟨ascii "hello".toList ++ List.replicate 123 0, 6, rfl⟩

/-- A write of the bytes `buffer`, whose pages may fault. -/
structure Write where
  fault : Option Fault
  buffer : List UInt8

def Write.text (w : Write) : List UInt8 :=
  w.buffer.take (copied w.fault (min w.buffer.length STR_lEN))

theorem Write.text_length (w : Write) :
    w.text.length = copied w.fault (min w.buffer.length STR_lEN) ∧ w.text.length ≤ STR_lEN := by
  have le := copied_le w.fault (min w.buffer.length STR_lEN)
  have length : w.text.length = copied w.fault (min w.buffer.length STR_lEN) :=
    List.length_take_of_le (by omega)
  omega

/-- What `sprintf` looks at is the array and whatever lies behind it. -/
def read_entry (s : State) (behind : List UInt8) : List UInt8 × Int32 :=
  let page := cstring (s.str ++ behind) ++ [10]
  (page, Int32.ofNat page.length)

/-- The array is cleared before the copy. -/
def write_entry (_ : State) (w : Write) : State × Int32 :=
  let str := List.replicate STR_lEN 0
  let count := min w.buffer.length STR_lEN
  let n := copied w.fault count
  (⟨copy_to_front w.fault str w.buffer count, Int32.ofNat n, by
    have room : count ≤ str.length := List.length_replicate ▸ Nat.min_le_right ..
    rw [copy_to_front_length (Nat.min_le_left ..) room, List.length_replicate]⟩,
    Int32.ofNat n)

def machine : Machine State Write := ⟨fun _ _ => True, fun s w => (write_entry s w).1⟩

def lastText (writes : List Write) : List UInt8 :=
  match writes.getLast? with
  | some w => w.text
  | none => ascii "hello".toList

/-- There is a NUL in the array, and a read looks at nothing else and prints the last text up to
its first NUL. -/
structure RoundTrip (writes : List Write) (s : State) : Prop where
  terminated : 0 ∈ s.str
  inside : ∀ behind, scanned (s.str ++ behind) ≤ STR_lEN
  printed : ∀ behind, (read_entry s behind).1 = cstring (lastText writes) ++ [10]

/-- Fewer bytes than the array has come across, or one of them is a NUL. -/
def LeavesNul (w : Write) : Prop :=
  copied w.fault (min w.buffer.length STR_lEN) < STR_lEN ∨ 0 ∈ w.buffer.take STR_lEN

theorem roundTrip_of_terminated {writes : List Write} {s : State} (nul : 0 ∈ s.str)
    (same : cstring s.str = cstring (lastText writes)) : RoundTrip writes s := by
  refine ⟨nul, fun behind => ?_, fun behind => ?_⟩
  · have ended := (cstring_length_lt_iff s.str).mpr nul
    rw [scanned, cstring_append nul, ← s.length]
    exact ended
  · unfold read_entry
    rw [cstring_append nul, same]

theorem write_str (s : State) (w : Write) : (write_entry s w).1.str =
    w.text ++ List.replicate (STR_lEN - w.text.length) 0 := by
  obtain ⟨length, _⟩ := w.text_length
  obtain ⟨moved, stored⟩ := overwritten_bounds w.fault (min w.buffer.length STR_lEN)
  have within : min w.buffer.length STR_lEN ≤ STR_lEN := Nat.min_le_right ..
  have zeros : STR_lEN - w.text.length =
      overwritten w.fault (min w.buffer.length STR_lEN) - w.text.length +
        (STR_lEN - overwritten w.fault (min w.buffer.length STR_lEN)) := by omega
  rw [zeros, List.replicate_add, length]
  simp only [write_entry, copy_to_front, List.drop_replicate, List.append_assoc, Write.text]

theorem nul_after_write_iff (s : State) (w : Write) :
    0 ∈ (write_entry s w).1.str ↔ LeavesNul w := by
  obtain ⟨length, le⟩ := w.text_length
  unfold LeavesNul
  rw [write_str, List.mem_append, List.mem_replicate, ← length]
  constructor
  · rintro (text | ⟨room, _⟩)
    · refine Or.inr (List.take_subset_take_left _ ?_ text)
      exact length ▸ le
    · exact Or.inl (by omega)
  · intro leaves
    by_cases short : w.text.length < STR_lEN
    · exact Or.inr ⟨by omega, rfl⟩
    · have full : copied w.fault (min w.buffer.length STR_lEN) = STR_lEN := by omega
      refine Or.inl ?_
      unfold Write.text
      rw [full]
      exact leaves.resolve_left short

theorem roundTrip_write {writes : List Write} {s : State} {w : Write} (leaves : LeavesNul w) :
    RoundTrip (writes ++ [w]) (write_entry s w).1 := by
  refine roundTrip_of_terminated ((nul_after_write_iff s w).mpr leaves) ?_
  rw [write_str, cstring_zeros, lastText, List.getLast?_concat]

/-- For every sequence of writes, the text is read back and the array keeps its NUL in every state
exactly if each write leaves one: 128 bytes without a NUL are the only ones that do not. -/
theorem round_trip_iff (writes : List Write) :
    Always machine RoundTrip init writes ↔ ∀ w ∈ writes, LeavesNul w := by
  have run : Run machine init writes _ := run_of_enabled (fun _ _ => trivial) init writes
  have steps : Always machine RoundTrip init writes ↔
      Meets machine (fun _ w => LeavesNul w) init writes := by
    refine always_iff_meets (I := RoundTrip) ?_ ?_ ?_ ?_ run
    · exact roundTrip_of_terminated (by decide) (cstring_zeros _ 123)
    · exact fun _ t _ _ _ leaves => @roundTrip_write _ t _ leaves
    · exact fun _ _ kept => kept
    · intro before t w _ _ full kept
      exact full ((nul_after_write_iff t w).mp kept.terminated)
  rw [steps]
  constructor
  · intro meets w hw
    obtain ⟨pre, post, split⟩ := List.append_of_mem hw
    obtain ⟨t, before, _⟩ := run_before (split ▸ run)
    exact meets pre w post t split before
  · intro all pre w post t split _
    exact all w (by simp [split])

/-- After a write of 128 letters the array has no NUL and a read goes on behind it. -/
theorem string_overread :
    let w : Write := ⟨none, List.replicate 128 65⟩
    let s := (write_entry init w).1
    s.str = List.replicate 128 65 ∧ 0 ∉ s.str ∧ scanned (s.str ++ [66, 0]) = 130 ∧
      (read_entry s [66, 0]).1 = List.replicate 128 65 ++ [66, 10] ∧
      ¬ Always machine RoundTrip init [w] := by
  intro w s
  have full : s.str = List.replicate 128 65 := by
    simp [s, w, write_str, Write.text, copied, STR_lEN]
  have letters : 0 ∉ s.str := by simp [full]
  have overread : cstring (s.str ++ [66, 0]) = List.replicate 128 65 ++ [66] := by
    rw [cstring_append_of_notMem letters, full]
    rfl
  refine ⟨full, letters, ?_, ?_, fun always => ?_⟩
  · rw [scanned, overread, List.length_append, List.length_replicate]
    rfl
  · rw [read_entry, overread, List.append_assoc]
    rfl
  · have kept : RoundTrip [w] s := always [w] [] s rfl (Run.next Run.start trivial)
    exact letters kept.terminated

end DeviceDriverEx.ProcString
