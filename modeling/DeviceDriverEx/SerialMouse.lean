import DeviceDriverEx.Framing
import Mathlib.Tactic.Common

namespace DeviceDriverEx.SerialMouse

/-- What one message says: the changes in X and Y, and whether the buttons are pressed. -/
structure Report where
  dx : Int8
  dy : Int8
  left : Bool
  right : Bool
  deriving DecidableEq

/-- The module's variables, the static ones of `my_interrupt` among them. `printed` are the
messages it has printed, with the position after each. -/
structure State where
  interrupt_number : Int32
  xpos : Int32
  ypos : Int32
  byte_in : Fin 3 → UInt8
  nbytes_in : Fin 3
  printed : List (Report × Int32 × Int32)

def init : State := ⟨0, 0, 0, fun _ => 0, 0, []⟩

/-- The fields of a complete message. -/
def decode (byte_in : Fin 3 → UInt8) : Report where
  dx := ((byte_in 0 &&& 0x03) <<< 6 ||| (byte_in 1 &&& 0x3f)).toInt8
  dy := ((byte_in 0 &&& 0x0c) <<< 4 ||| (byte_in 2 &&& 0x3f)).toInt8
  left := byte_in 0 &&& 0x20 != 0
  right := byte_in 0 &&& 0x10 != 0

/-- `byte` is what the interrupt read from the port. -/
def my_interrupt (s : State) (byte : UInt8) : State :=
  let s := { s with interrupt_number := s.interrupt_number + 1 }
  let accept := s.nbytes_in > 0 ∨ byte &&& 0x40 ≠ 0
  let byte_in := if accept then Function.update s.byte_in s.nbytes_in byte else s.byte_in
  let nbytes_in := if accept then s.nbytes_in.val + 1 else s.nbytes_in.val
  if h : nbytes_in < 3 then { s with byte_in := byte_in, nbytes_in := ⟨nbytes_in, h⟩ }
  else
    let r := decode byte_in
    let xpos := s.xpos + r.dx.toInt32
    let ypos := s.ypos + r.dy.toInt32
    { s with
      xpos := xpos
      ypos := ypos
      byte_in := byte_in
      nbytes_in := 0
      printed := s.printed ++ [(r, xpos, ypos)] }

def interrupts (s : State) (bytes : List UInt8) : State := bytes.foldl my_interrupt s

def buttons (left right : Bool) : UInt8 :=
  0x40 ||| (bif left then 0x20 else 0) ||| (bif right then 0x10 else 0)

/-- The first byte of a message holds the buttons and the upper bits of the movement. -/
def firstByte (r : Report) : UInt8 :=
  let y : UInt8 := (r.dy.toUInt8 >>> 6) <<< 2
  let x : UInt8 := r.dx.toUInt8 >>> 6
  buttons r.left r.right ||| y ||| x

/-- The message a mouse sends: the bit 0x40 is set in the first byte only. -/
def encode (r : Report) : List UInt8 :=
  [firstByte r, r.dx.toUInt8 &&& 0x3f, r.dy.toUInt8 &&& 0x3f]

def framing : Framing UInt8 := ⟨3, by decide, fun b => b &&& 0x40 != 0⟩

/-- The message that three bytes make. -/
def message (p : List UInt8) : Report := decode fun i => p.getD i.val 0

/-- A report printed with the position it leads to. -/
def moved (at_ : Int32 × Int32) (r : Report) : Int32 × Int32 :=
  (at_.1 + r.dx.toInt32, at_.2 + r.dy.toInt32)

/-- The messages printed for some reports that come in at a position. -/
def trail : Int32 × Int32 → List Report → List (Report × Int32 × Int32)
  | _, [] => []
  | at_, r :: rs => (r, moved at_ r) :: trail (moved at_ r) rs

theorem or_and_distrib (a b m : UInt8) : (a ||| b) &&& m = (a &&& m) ||| (b &&& m) := by
  rw [← UInt8.toBitVec_inj]
  exact BitVec.and_or_distrib_right

/-- The upper two bits of a movement, as they stand in the first byte for X. -/
theorem upper_x (v : UInt8) : (v >>> 6) &&& (0x03 : UInt8) = v >>> 6 ∧ (v >>> 6) &&& 0x0c = 0 ∧
    (v >>> 6) &&& 0x20 = 0 ∧ (v >>> 6) &&& 0x10 = 0 ∧ (v >>> 6) &&& 0x40 = 0 := by
  simp only [← UInt8.toBitVec_inj, UInt8.toBitVec_and, UInt8.toBitVec_shiftRight]
  generalize v.toBitVec = w
  revert w
  decide

/-- And for Y. -/
theorem upper_y (v : UInt8) : ((v >>> 6) <<< 2) &&& 0x03 = 0 ∧
    ((v >>> 6) <<< 2) &&& (0x0c : UInt8) = (v >>> 6) <<< 2 ∧ ((v >>> 6) <<< 2) &&& 0x20 = 0 ∧
      ((v >>> 6) <<< 2) &&& 0x10 = 0 ∧ ((v >>> 6) <<< 2) &&& 0x40 = 0 := by
  simp only [← UInt8.toBitVec_inj, UInt8.toBitVec_and, UInt8.toBitVec_shiftRight,
    UInt8.toBitVec_shiftLeft]
  generalize v.toBitVec = w
  revert w
  decide

/-- The two parts of a movement make it up again. -/
theorem joined (v : UInt8) : (v >>> 6) <<< 6 ||| ((v &&& 0x3f) &&& 0x3f) = v ∧
    ((v >>> 6) <<< 2) <<< 4 ||| ((v &&& 0x3f) &&& 0x3f) = v := by
  simp only [← UInt8.toBitVec_inj, UInt8.toBitVec_and, UInt8.toBitVec_or,
    UInt8.toBitVec_shiftRight, UInt8.toBitVec_shiftLeft]
  generalize v.toBitVec = w
  revert w
  decide

theorem buttons_masks (left right : Bool) : buttons left right &&& 0x03 = 0 ∧
    buttons left right &&& 0x0c = 0 ∧ (buttons left right &&& 0x20 != 0) = left ∧
      (buttons left right &&& 0x10 != 0) = right ∧ buttons left right &&& 0x40 = 0x40 := by
  cases left <;> cases right <;> decide

/-- Decoding takes back what was encoded. -/
theorem message_encode (r : Report) : message (encode r) = r := by
  obtain ⟨dx, dy, left, right⟩ := r
  obtain ⟨x03, x0c, x20, x10, _⟩ := upper_x dx.toUInt8
  obtain ⟨y03, y0c, y20, y10, _⟩ := upper_y dy.toUInt8
  obtain ⟨b03, b0c, b20, b10, _⟩ := buttons_masks left right
  have x := (joined dx.toUInt8).1
  have y := (joined dy.toUInt8).2
  simp only [message, encode, firstByte, decode, Fin.val_zero, Fin.val_one, Fin.val_two,
    List.getD_cons_zero, List.getD_cons_succ, or_and_distrib, x03, x0c, x20, x10, y03, y0c, y20,
    y10, b03, b0c, b20, b10, UInt8.zero_or, UInt8.or_zero, x, y, Int8.toInt8_toUInt8]

theorem lower_unmarked (v : UInt8) : ((v &&& 0x3f) &&& 0x40) = 0 := by
  simp only [← UInt8.toBitVec_inj, UInt8.toBitVec_and]
  generalize v.toBitVec = w
  revert w
  decide

theorem encode_isPacket (r : Report) : framing.IsPacket (encode r) := by
  obtain ⟨_, _, _, _, b40⟩ := buttons_masks r.left r.right
  obtain ⟨_, _, _, _, x40⟩ := upper_x r.dx.toUInt8
  obtain ⟨_, _, _, _, y40⟩ := upper_y r.dy.toUInt8
  refine ⟨rfl, fun b hb => ?_, fun b hb => ?_⟩
  · have first : b = firstByte r := (Option.some.inj hb).symm
    simp only [first, framing, firstByte, or_and_distrib, b40, x40, y40]
    decide
  · simp only [encode, List.tail_cons, List.mem_cons, List.not_mem_nil, or_false] at hb
    rcases hb with rfl | rfl <;> simp only [framing, lower_unmarked] <;> decide

/-- The bytes of the message that has begun. -/
def State.begun (s : State) : framing.Partial :=
  ⟨[s.byte_in 0, s.byte_in 1, s.byte_in 2].take s.nbytes_in, by
    simp only [List.length_take, List.length_cons, List.length_nil, framing]
    omega⟩

/-- What an interrupt prints and where it leaves the position, for the messages it completes. -/
structure Follows (s t : State) (rs : List Report) : Prop where
  position : (t.xpos, t.ypos) = rs.foldl moved (s.xpos, s.ypos)
  printed : t.printed = s.printed ++ trail (s.xpos, s.ypos) rs

theorem message_third (byte_in : Fin 3 → UInt8) (byte : UInt8) :
    message [byte_in 0, byte_in 1, byte] = decode (Function.update byte_in 2 byte) := by
  simp [message, decode]

/-- One interrupt is one step of the receiver. -/
theorem my_interrupt_step (s : State) (byte : UInt8) :
    (my_interrupt s byte).begun = (framing.step s.begun byte).1 ∧
      Follows s (my_interrupt s byte) ((framing.step s.begun byte).2.toList.map message) := by
  obtain ⟨number, x, y, byte_in, ⟨n, hn⟩, printed⟩ := s
  have cases_n : n = 0 ∨ n = 1 ∨ n = 2 := by omega
  rcases cases_n with rfl | rfl | rfl
  · by_cases marked : byte &&& 0x40 = 0
    · refine ⟨?_, ?_, ?_⟩ <;> simp [my_interrupt, State.begun, framing, Framing.step, trail, marked]
    · refine ⟨?_, ?_, ?_⟩ <;> simp [my_interrupt, State.begun, framing, Framing.step, trail, marked]
  · refine ⟨?_, ?_, ?_⟩ <;> simp [my_interrupt, State.begun, framing, Framing.step, trail]
  · refine ⟨?_, ?_, ?_⟩
    · simp [my_interrupt, State.begun, framing, Framing.step, Framing.idle]
    · simp [my_interrupt, State.begun, framing, Framing.step, message_third, moved]
    · simp [my_interrupt, State.begun, framing, Framing.step, message_third, moved, trail]

theorem trail_append (at_ : Int32 × Int32) (rs rs' : List Report) :
    trail at_ (rs ++ rs') = trail at_ rs ++ trail (rs.foldl moved at_) rs' := by
  induction rs generalizing at_ with
  | nil => rfl
  | cons r rs ih => simp only [List.cons_append, trail, ih, List.foldl_cons]

theorem Follows.trans {s t u : State} {rs rs' : List Report} (first : Follows s t rs)
    (second : Follows t u rs') : Follows s u (rs ++ rs') := by
  refine ⟨?_, ?_⟩
  · rw [second.position, first.position, List.foldl_append]
  · rw [second.printed, first.printed, first.position, trail_append, List.append_assoc]

/-- The interrupts print the messages that the receiver hands on. -/
theorem interrupts_feed (s : State) (bytes : List UInt8) :
    (interrupts s bytes).begun = (framing.feed s.begun bytes).1 ∧
      Follows s (interrupts s bytes) ((framing.feed s.begun bytes).2.map message) := by
  induction bytes generalizing s with
  | nil => exact ⟨rfl, ⟨rfl, (List.append_nil _).symm⟩⟩
  | cons b bs ih =>
    obtain ⟨begun, first⟩ := my_interrupt_step s b
    obtain ⟨rest, follows⟩ := ih (my_interrupt s b)
    rw [begun] at rest follows
    refine ⟨rest, ?_⟩
    rw [Framing.feed, List.map_append]
    exact first.trans follows

theorem begun_nil (s : State) : s.begun.got = [] ↔ s.nbytes_in = 0 := by
  have short := s.nbytes_in.isLt
  rw [Fin.ext_iff, ← List.length_eq_zero_iff]
  simp only [State.begun, List.length_take, List.length_cons, List.length_nil, Fin.val_zero]
  omega

/-- From any state, whatever bytes led to it, the driver prints every report that the mouse sends
and adds it to the position, except that a first report that comes in out of step is replaced by
one made of its front and of what had been received. -/
theorem reports_resync (s : State) (r : Report) (rs : List Report) :
    let t := interrupts s ((r :: rs).map encode).flatten
    let first := if s.nbytes_in = 0 then r else
      message (s.begun.got ++ (encode r).take (3 - s.nbytes_in))
    t.nbytes_in = 0 ∧ t.printed = s.printed ++ trail (s.xpos, s.ypos) (first :: rs) ∧
      (t.xpos, t.ypos) = (first :: rs).foldl moved (s.xpos, s.ypos) := by
  intro t first
  have packets : ∀ p ∈ encode r :: rs.map encode, framing.IsPacket p := by
    intro p hp
    rw [← List.map_cons, List.mem_map] at hp
    obtain ⟨q, _, rfl⟩ := hp
    exact encode_isPacket q
  obtain ⟨begun, follows⟩ := interrupts_feed s ((r :: rs).map encode).flatten
  rw [List.map_cons, Framing.feed_packets_from s.begun packets] at begun follows
  have decoded : (rs.map encode).map message = rs := by
    simp only [List.map_map, Function.comp_def, message_encode, List.map_id']
  have length : s.begun.got.length = s.nbytes_in := by
    have short := s.nbytes_in.isLt
    simp only [State.begun, List.length_take, List.length_cons, List.length_nil]
    omega
  have head : message (if s.begun.got = [] then encode r else
      s.begun.got ++ (encode r).take (framing.len - s.begun.got.length)) = first := by
    rw [length]
    by_cases in_step : s.nbytes_in = 0
    · rw [if_pos ((begun_nil s).mpr in_step), message_encode]
      exact (if_pos in_step).symm
    · rw [if_neg fun h => in_step ((begun_nil s).mp h)]
      exact (if_neg in_step).symm
  rw [List.map_cons, decoded, head] at follows
  refine ⟨(begun_nil t).mp ?_, follows.printed, follows.position⟩
  rw [show t.begun = framing.idle from begun]
  rfl

/-- The byte 0x43 came in alone: it becomes the first byte of a message whose other two are the
front of the next one. -/
example :
    let r : Report := ⟨-5, 7, true, false⟩
    let t := interrupts (my_interrupt init 0x43) ((r :: [r]).map encode).flatten
    t.printed.map Prod.fst = [⟨-29, 59, false, false⟩, r] ∧ t.interrupt_number = 7 := by
  decide

end DeviceDriverEx.SerialMouse
