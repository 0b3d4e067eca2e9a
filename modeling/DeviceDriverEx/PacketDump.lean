import DeviceDriverEx.CString
import DeviceDriverEx.Decimal

namespace DeviceDriverEx.PacketDump

/-- `char line[256], entry[16];` with what the stack held there. -/
structure Frame where
  line : List UInt8
  entry : List UInt8
  line_size : line.length = 256
  entry_size : entry.length = 16

/-- What `" %2x"` prints. -/
def formatted (b : UInt8) : List UInt8 :=
  let digits := ascii (Nat.toDigits 16 b.toNat)
  32 :: (List.replicate (2 - digits.length) 32 ++ digits)

/-- The loop of `printline`, from `j` on for `left` turns. -/
def entries (data : List UInt8) : Nat → Nat → List UInt8 → List UInt8 → Option (List UInt8)
  | 0, _, line, _ => some line
  | left + 1, j, line, entry => do
    let b ← data[j]?
    let entry ← storeString entry 0 (formatted b)
    let line ← strcat line entry
    entries data left (j + 1) line entry

/-- The line printed; `none` where an array, or the data, is overrun. -/
def printline (f : Frame) (data : List UInt8) (n : Int32) : Option (List UInt8) := do
  let line ← strcpy f.line [0]
  let line ← entries data n.toNatClampNeg 0 line f.entry
  return cstring line ++ [10]

/-- `&skb->data[i]` -/
def dataFrom (data : List UInt8) (i : Int32) : Option (List UInt8) :=
  if i < 0 then none else some (data.drop i.toNatClampNeg)

/-- The `for` of `my_start_xmit` from `i` on, with the lines that it prints. The first argument
bounds its turns. -/
def my_start_xmit (stack : Int32 → Frame) (data : List UInt8) (len : UInt32) :
    Nat → Int32 → Option (List (List UInt8))
  | 0, _ => none
  | fuel + 1, i =>
    if i.toUInt32 < len then do
      let n := if len - i.toUInt32 < 16 then len - i.toUInt32 else 16
      let from_ ← dataFrom data i
      let first ← printline (stack i) from_ n.toInt32
      let rest ← my_start_xmit stack data len fuel (i + 16)
      return first :: rest
    else some []

/-- The upper half of a byte; a space stands for no digit. -/
def upperDigit (hi : UInt8) : Option Nat := if hi = 32 then some 0 else digitIn 16 hi

/-- How a reader of the log gets the bytes of a line back. -/
def readLine : List UInt8 → Option (List UInt8)
  | [10] => some []
  | 32 :: hi :: lo :: rest => do
    let h ← upperDigit hi
    let l ← digitIn 16 lo
    let bytes ← readLine rest
    return UInt8.ofNat (16 * h + l) :: bytes
  | _ => none

/-- The bytes of all the lines, one line behind the other. -/
def readBack (lines : List (List UInt8)) : Option (List UInt8) :=
  (lines.mapM readLine).map List.flatten

theorem hexDigit {d : Nat} (h : d < 16) :
    digitIn 16 (UInt8.ofNat d.digitChar.toNat) = some d ∧ UInt8.ofNat d.digitChar.toNat ≠ 32 ∧
      UInt8.ofNat d.digitChar.toNat ≠ 0 := by
  have all : ∀ d < 16, digitIn 16 (UInt8.ofNat d.digitChar.toNat) = some d ∧
      UInt8.ofNat d.digitChar.toNat ≠ 32 ∧ UInt8.ofNat d.digitChar.toNat ≠ 0 := by decide
  exact all d h

/-- Three characters for a byte, of which the second is a space or the upper digit. -/
theorem formatted_eq (b : UInt8) : ∃ hi lo h l, formatted b = [32, hi, lo] ∧
    upperDigit hi = some h ∧ digitIn 16 lo = some l ∧ 16 * h + l = b.toNat ∧ hi ≠ 0 ∧ lo ≠ 0 := by
  have small : b.toNat < 256 := b.toNat_lt
  by_cases one : b.toNat < 16
  · obtain ⟨low, _, plain⟩ := hexDigit one
    refine ⟨32, UInt8.ofNat b.toNat.digitChar.toNat, 0, b.toNat, ?_, rfl, low, by omega, by decide,
      plain⟩
    rw [formatted, Nat.toDigits_of_lt_base one]
    rfl
  · have upper : b.toNat / 16 < 16 := by omega
    have lower : b.toNat % 16 < 16 := by omega
    obtain ⟨high, notSpace, plainHigh⟩ := hexDigit upper
    obtain ⟨low, _, plainLow⟩ := hexDigit lower
    refine ⟨UInt8.ofNat (b.toNat / 16).digitChar.toNat, UInt8.ofNat (b.toNat % 16).digitChar.toNat,
      b.toNat / 16, b.toNat % 16, ?_, ?_, low, by omega, plainHigh, plainLow⟩
    · rw [formatted, Nat.toDigits_of_base_le (by decide) (by omega),
        Nat.toDigits_of_lt_base upper]
      rfl
    · rw [upperDigit, if_neg notSpace]
      exact high

theorem formatted_length (b : UInt8) : (formatted b).length = 3 := by
  obtain ⟨hi, lo, h, l, text, _⟩ := formatted_eq b
  rw [text]
  rfl

theorem formatted_plain (b : UInt8) : 0 ∉ formatted b := by
  obtain ⟨hi, lo, h, l, text, _, _, _, plainHigh, plainLow⟩ := formatted_eq b
  simp [text, plainHigh.symm, plainLow.symm]

theorem flatMap_length (bs : List UInt8) : (bs.flatMap formatted).length = 3 * bs.length := by
  induction bs with
  | nil => rfl
  | cons b bs ih =>
    rw [List.flatMap_cons, List.length_append, formatted_length, ih, List.length_cons]
    omega

/-- A reader gets a line's bytes back. -/
theorem readLine_flatMap (bs : List UInt8) : readLine (bs.flatMap formatted ++ [10]) = some bs := by
  induction bs with
  | nil => rfl
  | cons b bs ih =>
    obtain ⟨hi, lo, h, l, text, high, low, value, _⟩ := formatted_eq b
    have split : (b :: bs).flatMap formatted ++ [10] =
        32 :: hi :: lo :: (bs.flatMap formatted ++ [10]) := by
      rw [List.flatMap_cons, text]
      rfl
    rw [split]
    simp only [readLine, high, low, ih, Option.bind_eq_bind, Option.bind_some, value,
      UInt8.ofNat_toNat]
    rfl

/-- The turns that are left append as many entries, as long as the line has room for them. -/
theorem entries_holds {data : List UInt8} {left j : Nat} {line entry t : List UInt8}
    (inside : j + left ≤ data.length) (h : Holds line t) (size : entry.length = 16)
    (room : t.length + 3 * left < line.length) :
    ∃ r, entries data left j line entry = some r ∧
      Holds r (t ++ ((data.drop j).take left).flatMap formatted) := by
  induction left generalizing j line entry t with
  | zero => exact ⟨line, rfl, by simpa using h⟩
  | succ left ih =>
    have here : j < data.length := by omega
    have three := formatted_length data[j]
    have small : ([] : List UInt8).length + (formatted data[j]).length < entry.length := by
      rw [three, size]
      decide
    obtain ⟨e, stored, holds, kept⟩ :=
      storeString_holds rfl List.not_mem_nil (formatted_plain data[j]) small
    obtain ⟨r, joined, longer, same⟩ := strcat_holds h holds (by
      rw [List.nil_append, three]
      omega)
    obtain ⟨last, turns, text⟩ := ih (j := j + 1) (by omega) longer (kept.trans size) (by
      rw [List.length_append, List.nil_append, three, same]
      omega)
    refine ⟨last, ?_, ?_⟩
    · simp only [entries, List.getElem?_eq_getElem here, Option.bind_eq_bind, Option.bind_some]
      rw [show storeString entry 0 (formatted data[j]) = some e from stored]
      simp only [Option.bind_some, joined, turns]
    · rw [List.drop_eq_getElem_cons here, List.take_succ_cons, List.flatMap_cons,
        ← List.append_assoc]
      exact text

/-- Sixteen entries fit the line, and `printline` prints one for each byte. -/
theorem printline_eq (f : Frame) {data : List UInt8} {n : Int32} (most : n.toNatClampNeg ≤ 16)
    (inside : n.toNatClampNeg ≤ data.length) :
    printline f data n = some ((data.take n.toNatClampNeg).flatMap formatted ++ [10]) := by
  have nul : Holds [0] [] := ⟨List.mem_singleton_self 0, rfl⟩
  have start : ([] : List UInt8).length < f.line.length := by
    rw [f.line_size]
    decide
  obtain ⟨line, cleared, empty, size⟩ := strcpy_holds nul start
  have room : ([] : List UInt8).length + 3 * n.toNatClampNeg < line.length := by
    rw [size, f.line_size, List.length_nil]
    omega
  have bytes : 0 + n.toNatClampNeg ≤ data.length := by omega
  obtain ⟨r, turns, holds⟩ := entries_holds bytes empty f.entry_size room
  simp only [printline, cleared, turns, Option.bind_eq_bind, Option.bind_some, holds.text]
  rfl

/-- A line for sixteen bytes, and a last one for what is left. -/
def Lines (count : Nat) (ls : List (List UInt8)) : Prop :=
  ls.length = (count + 15) / 16 ∧ ∀ l ∈ ls.dropLast, l.length = 49

theorem readBack_cons {bs cs : List UInt8} {l : List UInt8} {ls : List (List UInt8)}
    (first : readLine l = some bs) (rest : readBack ls = some cs) :
    readBack (l :: ls) = some (bs ++ cs) := by
  obtain ⟨all, read, rfl⟩ := Option.map_eq_some_iff.mp rest
  simp only [readBack, List.mapM_cons, first, read, Option.bind_eq_bind, Option.bind_some]
  rfl

theorem lines_cons {bs : List UInt8} {count : Nat} {ls : List (List UInt8)} (some_ : 0 < count)
    (first : bs.length = min count 16) (rest : Lines (count - 16) ls) :
    Lines count ((bs.flatMap formatted ++ [10]) :: ls) := by
  obtain ⟨length, full⟩ := rest
  refine ⟨?_, fun l hl => ?_⟩
  · rw [List.length_cons, length]
    omega
  · cases ls with
    | nil => cases hl
    | cons l' ls =>
      rw [List.length_cons] at length
      rcases List.mem_cons.mp hl with rfl | later
      · rw [List.length_append, flatMap_length, first, List.length_singleton]
        omega
      · exact full l later

theorem toInt32_toNatClampNeg {v : UInt32} (small : v.toNat < 2 ^ 31) :
    v.toInt32.toNatClampNeg = v.toNat := by
  rw [← UInt32.ofNat_toNat (x := v), UInt32.toInt32_ofNat', Int32.toNatClampNeg_ofNat_of_lt small,
    UInt32.toNat_ofNat_of_lt' v.toNat_lt]

section
variable {stack : Int32 → Frame} {data : List UInt8} {len : UInt32} {m : Nat}

/-- The arithmetic of one turn, where the packet and `i` fit an `int`. -/
theorem turn_toNat (whole : len.toNat = data.length) (here : m < data.length) :
    (if len - (Int32.ofNat m).toUInt32 < 16 then len - (Int32.ofNat m).toUInt32
      else 16).toInt32.toNatClampNeg = min (data.length - m) 16 := by
  have place : (UInt32.ofNat m).toNat = m := UInt32.toNat_ofNat_of_lt' (Nat.lt_trans here (by
    rw [← whole]
    exact len.toNat_lt))
  have left : (len - UInt32.ofNat m).toNat = data.length - m := by
    rw [UInt32.toNat_sub_of_le _ _ (UInt32.le_iff_toNat_le.mpr (by omega)), place, whole]
  rw [Int32.toUInt32_ofNat']
  split
  next less =>
    rw [UInt32.lt_iff_toNat_lt, left] at less
    change data.length - m < 16 at less
    rw [toInt32_toNatClampNeg (by omega), left]
    omega
  next more =>
    rw [UInt32.lt_iff_toNat_lt, left] at more
    change ¬ data.length - m < 16 at more
    change 16 = _
    omega

/-- What is printed from `i` on reads back as what the packet holds from there on. -/
theorem xmit_from (whole : len.toNat = data.length) (small : data.length + 16 ≤ 2 ^ 31)
    {fuel : Nat} (place : m < 2 ^ 31) (enough : data.length - m + 16 ≤ 16 * fuel) :
    ∃ ls, my_start_xmit stack data len fuel (Int32.ofNat m) = some ls ∧
      readBack ls = some (data.drop m) ∧ Lines (data.length - m) ls := by
  induction fuel generalizing m with
  | zero => exact absurd enough (by omega)
  | succ fuel ih =>
    have inside : (Int32.ofNat m).toUInt32 < len ↔ m < data.length := by
      rw [UInt32.lt_iff_toNat_lt, Int32.toUInt32_ofNat', whole,
        UInt32.toNat_ofNat_of_lt' (Nat.lt_trans place (by decide))]
    unfold my_start_xmit
    by_cases here : m < data.length
    · have turn := turn_toNat whole here
      have from_ : dataFrom data (Int32.ofNat m) = some (data.drop m) := by
        have nonneg := Int32.zero_le_ofNat_of_lt place
        rw [dataFrom, if_neg (Int32.not_lt.mpr nonneg), Int32.toNatClampNeg_ofNat_of_lt place]
      have bytes := List.length_drop (i := m) (l := data)
      have most := turn.trans_le (Nat.min_le_right _ 16)
      have first := printline_eq (stack (Int32.ofNat m)) most (turn.trans_le (by omega) : _ ≤
        (data.drop m).length)
      have sixteen : (data.drop m).take (min (data.length - m) 16) = (data.drop m).take 16 :=
        List.take_eq_take_iff.mpr (by omega)
      rw [turn, sixteen] at first
      obtain ⟨ls, lines, read, shape⟩ := ih (m := m + 16) (by omega) (by omega)
      have advance : Int32.ofNat m + 16 = Int32.ofNat (m + 16) := (Int32.ofNat_add m 16).symm
      rw [if_pos (inside.mpr here)]
      simp only [from_, first, advance, lines, Option.bind_eq_bind, Option.bind_some]
      refine ⟨_, rfl, ?_, lines_cons (by omega) (by rw [List.length_take, bytes]; omega) ?_⟩
      · rw [readBack_cons (readLine_flatMap _) read, ← List.drop_drop, List.take_append_drop]
      · rwa [Nat.sub_sub]
    · have none : data.drop m = [] := List.drop_eq_nil_of_le (by omega)
      rw [if_neg (mt inside.mp here)]
      refine ⟨[], rfl, by rw [none]; rfl, ?_, nofun⟩
      rw [List.length_nil]
      omega

end

/-- The lines that a packet is printed in read back as the packet, whatever the stack holds when
`printline` is called; they are full but for the last one, and nothing beyond `line`, `entry` and
the packet is touched on the way. -/
theorem dump_reads_back (stack : Int32 → Frame) {data : List UInt8} {len : UInt32}
    (whole : len.toNat = data.length) (small : data.length + 16 ≤ 2 ^ 31) {fuel : Nat}
    (enough : data.length + 16 ≤ 16 * fuel) :
    ∃ ls, my_start_xmit stack data len fuel 0 = some ls ∧ readBack ls = some data ∧
      Lines data.length ls :=
  xmit_from (m := 0) whole small (by decide) enough

/-- Seventeen bytes, on two lines, with no NUL on the stack before. -/
theorem dump_reads_back_seventeen :
    let stack : Int32 → Frame := fun _ => ⟨List.replicate 256 0xff, List.replicate 16 0xff,
      List.length_replicate, List.length_replicate⟩
    ∃ ls, my_start_xmit stack (List.replicate 17 0xab) 17 3 0 = some ls ∧
      readBack ls = some (List.replicate 17 0xab) ∧ Lines 17 ls := by
  intro stack
  exact dump_reads_back stack rfl (by decide) (by decide)

end DeviceDriverEx.PacketDump
