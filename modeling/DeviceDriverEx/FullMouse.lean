import DeviceDriverEx.Globalmem
import DeviceDriverEx.Machine
import DeviceDriverEx.Occupancy
import DeviceDriverEx.SerialMouse

namespace DeviceDriverEx.FullMouse

def EAGAIN : Int32 := 11

/-- What one call of `mymouse_read` is given. -/
structure Call where
  lbuf : UInt64
  ndelay : Bool

/-- Where a call of `mymouse_read` stands. It has `faulted` when it has returned `-EFAULT`. -/
inductive Pc
  | enter
  | look
  | disable
  | copy
  | clear (data : List UInt8)
  | enable (data : List UInt8)
  | faulted
  | returned (rval : Int64) (data : List UInt8)
  deriving DecidableEq

/-- This call has disabled the irq and has not enabled it. -/
def Pc.holds : Pc → Bool
  | .copy => true
  | .clear _ => true
  | .enable _ => true
  | .faulted => true
  | _ => false

/-- `my_state`, the static variable of `my_interrupt`, and how often the irq is disabled. -/
structure State (ι : Type) where
  bytes : Fin 5 → UInt8
  ready : Bool
  numByteIn : Fin 3
  disabled : Nat
  pc : ι → Pc

def init {ι : Type} : State ι := ⟨fun _ => 0, false, ⟨0, Nat.zero_lt_succ 2⟩, 0, fun _ => .enter⟩

inductive Act (ι : Type)
  | byte (b : UInt8)
  | open_
  | enter (i : ι)
  | look (i : ι)
  | signal (i : ι)
  | disable (i : ι)
  | copy (i : ι) (fault : Bool)
  | clear (i : ι)
  | enable (i : ι)

section
variable {ι : Type} [DecidableEq ι] (call : ι → Call)

/-- One turn of the loop of `my_interrupt`, which found `byte` at the port. -/
def my_interrupt (s : State ι) (byte : UInt8) : State ι :=
  let accept := s.numByteIn.val > 0 ∨ byte &&& 0x40 ≠ 0
  let bytes := if accept then Function.update s.bytes (s.numByteIn.castLE (by decide)) byte
    else s.bytes
  let numByteIn := if accept then s.numByteIn.val + 1 else s.numByteIn.val
  if h : numByteIn < 3 then { s with bytes := bytes, numByteIn := ⟨numByteIn, h⟩ }
  else { s with bytes := bytes, ready := true, numByteIn := ⟨0, Nat.zero_lt_succ 2⟩ }

omit [DecidableEq ι] in
/-- The irq comes in only while nobody has disabled it. A call sleeps until a packet is ready,
unless it may not, or until a signal arrives. -/
def Enabled (s : State ι) : Act ι → Prop
  | .byte _ => s.disabled = 0
  | .open_ => True
  | .enter i => s.pc i = .enter
  | .look i => s.pc i = .look ∧ (s.ready = true ∨ (call i).ndelay = true)
  | .signal i => s.pc i = .look ∧ (call i).ndelay = false
  | .disable i => s.pc i = .disable
  | .copy i _ => s.pc i = .copy
  | .clear i => ∃ data, s.pc i = .clear data
  | .enable i => ∃ data, s.pc i = .enable data

/-- The user's buffer: the packet, padded with zeros. -/
def padded (lbuf : UInt64) (data : List UInt8) : List UInt8 :=
  data ++ List.replicate (lbuf.toNat - 3) 0

def State.go (s : State ι) (i : ι) (pc : Pc) : State ι := { s with pc := Function.update s.pc i pc }

def next (s : State ι) : Act ι → State ι
  | .byte b => my_interrupt s b
  | .open_ => { s with ready := false }
  | .enter i => s.go i (if (call i).lbuf < 3 then .returned (-EINVAL).toInt64 [] else .look)
  | .look i => s.go i (if s.ready then .disable else .returned (-EAGAIN).toInt64 [])
  | .signal i => s.go i (.returned (-ERESTARTSYS).toInt64 [])
  | .disable i => { s.go i .copy with disabled := s.disabled + 1 }
  | .copy i fault => s.go i (if fault then .faulted
      else .clear (padded (call i).lbuf [s.bytes 0, s.bytes 1, s.bytes 2]))
  | .clear i => match s.pc i with
    | .clear data => { s.go i (.enable data) with ready := false }
    | _ => s
  | .enable i => match s.pc i with
    | .enable data => { s.go i (.returned (call i).lbuf.toInt64 data) with disabled := s.disabled - 1 }
    | _ => s

def machine : Machine (State ι) (Act ι) := ⟨Enabled call, next call⟩

/-- What the port has delivered, in order. -/
def Act.received {ι : Type} : Act ι → Option UInt8
  | .byte b => some b
  | _ => none

/-- The bytes of the buffer, in terms of a receiver of messages: those of the message under way, and
behind them those of the last complete one. -/
structure Holds (s : State ι) (r : SerialMouse.framing.Partial × List (List UInt8)) : Prop where
  count : s.numByteIn.val = r.1.got.length
  bytes : [s.bytes 0, s.bytes 1, s.bytes 2] =
    r.1.got ++ (r.2.getLast?.getD [0, 0, 0]).drop r.1.got.length
  ready : s.ready = true → r.2 ≠ []

omit [DecidableEq ι] in
theorem holds_init : Holds (init : State ι) (SerialMouse.framing.idle, []) := by
  refine ⟨rfl, rfl, fun h => ?_⟩
  cases h

omit [DecidableEq ι] in
theorem holds_byte {s : State ι} {r : SerialMouse.framing.Partial × List (List UInt8)}
    (h : Holds s r) (b : UInt8) : Holds (my_interrupt s b)
      ((SerialMouse.framing.step r.1 b).1, r.2 ++ (SerialMouse.framing.step r.1 b).2.toList) := by
  obtain ⟨bytes, ready, ⟨n, hn⟩, disabled, pc⟩ := s
  obtain ⟨⟨got, short⟩, packets⟩ := r
  obtain ⟨count, held, isReady⟩ := h
  have cases_n : n = 0 ∨ n = 1 ∨ n = 2 := by omega
  rcases cases_n with rfl | rfl | rfl
  · obtain rfl : got = [] := List.length_eq_zero_iff.mp count.symm
    by_cases marked : b &&& 0x40 = 0
    · refine ⟨?_, ?_, ?_⟩
      · simp [my_interrupt, Framing.step, SerialMouse.framing, marked]
      · simpa [my_interrupt, Framing.step, SerialMouse.framing, marked] using held
      · simpa [my_interrupt, Framing.step, SerialMouse.framing, marked] using isReady
    · refine ⟨?_, ?_, ?_⟩
      · simp [my_interrupt, Framing.step, SerialMouse.framing, marked]
      · simp at held
        simp [my_interrupt, Framing.step, SerialMouse.framing, marked, ← held]
      · simpa [my_interrupt, Framing.step, SerialMouse.framing, marked] using isReady
  · obtain ⟨g, rfl⟩ := List.length_eq_one_iff.mp count.symm
    obtain ⟨first, rest⟩ := List.cons.inj held
    have behind : (packets.getLast?.getD [0, 0, 0]).drop 2 = [bytes 2] := by
      rw [show 2 = 1 + 1 from rfl, ← List.drop_drop]
      exact congrArg (List.drop 1) rest.symm
    refine ⟨?_, ?_, ?_⟩
    · simp [my_interrupt, Framing.step, SerialMouse.framing]
    · simp [my_interrupt, Framing.step, SerialMouse.framing, behind, ← first]
    · simpa [my_interrupt, Framing.step, SerialMouse.framing] using isReady
  · obtain ⟨g, g', rfl⟩ := List.length_eq_two.mp count.symm
    obtain ⟨first, rest⟩ := List.cons.inj held
    obtain ⟨second, _⟩ := List.cons.inj rest
    refine ⟨?_, ?_, ?_⟩
    · simp [my_interrupt, Framing.step, SerialMouse.framing, Framing.idle]
    · simp [my_interrupt, Framing.step, SerialMouse.framing, Framing.idle, ← first, ← second]
    · simp [my_interrupt, Framing.step, SerialMouse.framing]

/-- The call has seen that a packet was ready, and has not read it. -/
def Pc.passed : Pc → Bool
  | .disable => true
  | .copy => true
  | _ => false

/-- What the receiver has made of the bytes so far. -/
def receiver (as : List (Act ι)) : SerialMouse.framing.Partial × List (List UInt8) :=
  SerialMouse.framing.feed SerialMouse.framing.idle (as.filterMap Act.received)

omit [DecidableEq ι] in
theorem receiver_byte (as : List (Act ι)) (b : UInt8) : receiver (as ++ [.byte b]) =
    ((SerialMouse.framing.step (receiver as).1 b).1,
      (receiver as).2 ++ (SerialMouse.framing.step (receiver as).1 b).2.toList) := by
  unfold receiver
  rw [List.filterMap_append]
  exact Framing.feed_concat _ _ b

omit [DecidableEq ι] in
theorem receiver_other (as : List (Act ι)) {a : Act ι} (h : a.received = none) :
    receiver (as ++ [a]) = receiver as := by
  unfold receiver
  rw [List.filterMap_append, List.filterMap_cons_none h, List.filterMap_nil, List.append_nil]

structure Inv (as : List (Act ι)) (s : State ι) : Prop where
  holds : Holds s (receiver as)
  passed : ∀ i, (s.pc i).passed = true → (receiver as).2 ≠ []

omit [DecidableEq ι] in
theorem inv_init : Inv [] (init : State ι) :=
  ⟨holds_init, fun i h => by cases h⟩

/-- A call that moves on and leaves the buffer alone. -/
theorem inv_go {as : List (Act ι)} {s : State ι} {a : Act ι} {i : ι} {k : Pc} (h : Inv as s)
    (quiet : a.received = none) (ready : k.passed = true → (receiver as).2 ≠ []) :
    Inv (as ++ [a]) (s.go i k) := by
  refine ⟨?_, fun j hj => ?_⟩
  · rw [receiver_other as quiet]
    exact ⟨h.holds.count, h.holds.bytes, h.holds.ready⟩
  · rw [receiver_other as quiet]
    by_cases own : j = i
    · subst own
      simp only [State.go, Function.update_self] at hj
      exact ready hj
    · simp only [State.go, Function.update_of_ne own] at hj
      exact h.passed j hj

omit [DecidableEq ι] in
theorem my_interrupt_pc (s : State ι) (b : UInt8) :
    (my_interrupt s b).pc = s.pc ∧ (my_interrupt s b).disabled = s.disabled := by
  constructor <;> unfold my_interrupt <;> dsimp only <;> split <;> split <;> rfl

theorem inv_next {as : List (Act ι)} {s : State ι} {a : Act ι} (h : Inv as s)
    (enabled : Enabled call s a) : Inv (as ++ [a]) (next call s a) := by
  cases a with
  | byte b =>
    refine ⟨?_, fun i hi => ?_⟩
    · rw [receiver_byte]
      exact holds_byte h.holds b
    · rw [show (next call s (.byte b)).pc = s.pc from (my_interrupt_pc s b).1] at hi
      rw [receiver_byte]
      exact List.append_ne_nil_of_left_ne_nil (h.passed i hi) _
  | open_ =>
    refine ⟨?_, fun i hi => ?_⟩
    · rw [receiver_other as rfl]
      exact ⟨h.holds.count, h.holds.bytes, fun ready => by cases ready⟩
    · rw [receiver_other as rfl]
      exact h.passed i hi
  | enter i =>
    refine inv_go h rfl fun passed => ?_
    split at passed <;> cases passed
  | look i =>
    refine inv_go h rfl fun passed => ?_
    split at passed
    next ready => exact h.holds.ready ready
    next => cases passed
  | signal i => exact inv_go h rfl fun passed => by cases passed
  | disable i =>
    have before : s.pc i = .disable := enabled
    obtain ⟨holds, passed⟩ := inv_go (a := .disable i) (i := i) (k := .copy) h rfl fun _ =>
      h.passed i (by rw [before]; rfl)
    exact ⟨⟨holds.count, holds.bytes, holds.ready⟩, passed⟩
  | copy i fault =>
    refine inv_go h rfl fun passed => ?_
    split at passed <;> cases passed
  | clear i =>
    obtain ⟨data, before⟩ := enabled
    obtain ⟨holds, passed⟩ := inv_go (a := .clear i) (i := i) (k := .enable data) h rfl fun passed =>
      by cases passed
    simp only [next, before]
    exact ⟨⟨holds.count, holds.bytes, fun ready => by cases ready⟩, passed⟩
  | enable i =>
    obtain ⟨data, before⟩ := enabled
    obtain ⟨holds, passed⟩ := inv_go (a := .enable i) (i := i)
      (k := .returned (call i).lbuf.toInt64 data) h rfl fun passed => by cases passed
    simp only [next, before]
    exact ⟨⟨holds.count, holds.bytes, holds.ready⟩, passed⟩

theorem inv_run {as : List (Act ι)} {s : State ι} (h : Run (machine call) init as s) :
    Inv as s := by
  induction h with
  | start => exact inv_init
  | next _ enabled ih => exact inv_next call ih enabled

/-- A packet of three bytes in the buffer, if `got` of them have been overwritten by the next. -/
theorem torn_iff {got last : List UInt8} :
    got ++ last.drop got.length = last ↔ last.take got.length = got := by
  constructor
  · intro same
    rw [← same, List.take_left']
    rfl
  · intro front
    conv => rhs; rw [← List.take_append_drop got.length last, front]

/-- Whatever the calls and the interrupts do, a read hands over the last complete message, with the
bytes of the next one that have come in by then in place of its own: so it is that message just if
these are none, or the same. -/
theorem read_hands_over {as : List (Act ι)} {s : State ι} (h : Run (machine call) init as s) {i : ι}
    (copies : s.pc i = .copy) :
    ∃ last data, (receiver as).2.getLast? = some last ∧
      (next call s (.copy i false)).pc i = .clear (padded (call i).lbuf data) ∧
      data = (receiver as).1.got ++ last.drop (receiver as).1.got.length ∧
      (data = last ↔ last.take (receiver as).1.got.length = (receiver as).1.got) := by
  obtain ⟨holds, passed⟩ := inv_run call h
  have completed := passed i (by rw [copies]; rfl)
  have last := List.getLast?_eq_some_getLast completed
  have bytes := holds.bytes
  rw [last, Option.getD_some] at bytes
  refine ⟨_, _, last, ?_, rfl, torn_iff⟩
  rw [← bytes]
  exact Function.update_self ..

/-- The irq is disabled once for each call that has not enabled it. -/
def Counted [Fintype ι] (s : State ι) : Prop := s.disabled = occupancy Pc.holds s.pc

theorem counted_go [Fintype ι] {s : State ι} {i : ι} {pc : Pc} (h : Counted s)
    (same : pc.holds = (s.pc i).holds) : Counted (s.go i pc) :=
  (show s.disabled = _ from h).trans (occupancy_stay same).symm

theorem counted_next [Fintype ι] {s : State ι} {a : Act ι} (h : Counted s)
    (enabled : Enabled call s a) : Counted (next call s a) := by
  cases a with
  | byte b =>
    obtain ⟨pc, disabled⟩ := my_interrupt_pc s b
    change (my_interrupt s b).disabled = occupancy Pc.holds (my_interrupt s b).pc
    rw [pc, disabled]
    exact h
  | open_ => exact h
  | enter i =>
    have before : s.pc i = .enter := enabled
    refine counted_go h ?_
    rw [before]
    split <;> rfl
  | look i =>
    have before : s.pc i = .look := enabled.1
    refine counted_go h ?_
    rw [before]
    split <;> rfl
  | signal i =>
    have before : s.pc i = .look := enabled.1
    refine counted_go h ?_
    rw [before]
    rfl
  | disable i =>
    have before : s.pc i = .disable := enabled
    change s.disabled + 1 = occupancy Pc.holds (Function.update s.pc i .copy)
    rw [occupancy_enter (by rw [before]; rfl) rfl, ← show s.disabled = _ from h]
  | copy i fault =>
    have before : s.pc i = .copy := enabled
    refine counted_go h ?_
    rw [before]
    split <;> rfl
  | clear i =>
    obtain ⟨data, before⟩ := enabled
    simp only [next, before]
    refine counted_go h ?_
    rw [before]
    rfl
  | enable i =>
    obtain ⟨data, before⟩ := enabled
    simp only [next, before]
    have moved := occupancy_update Pc.holds s.pc i (.returned (call i).lbuf.toInt64 data)
    rw [before] at moved
    have counted : s.disabled = occupancy Pc.holds s.pc := h
    change s.disabled - 1 = occupancy Pc.holds (Function.update s.pc i _)
    simp only [Pc.holds, Bool.toNat_true, Bool.toNat_false, Nat.add_zero] at moved
    omega

theorem counted_run [Fintype ι] {as : List (Act ι)} {s : State ι}
    (h : Run (machine call) init as s) : Counted s := by
  have start : Counted (init : State ι) := (occupancy_eq_zero fun _ => rfl).symm
  exact run_invariant start (fun _ _ inv enabled => counted_next call inv enabled) h

/-- The call that an action is a step of. -/
def Act.party {ι : Type} : Act ι → Option ι
  | .byte _ => none
  | .open_ => none
  | .enter i => some i
  | .look i => some i
  | .signal i => some i
  | .disable i => some i
  | .copy i _ => some i
  | .clear i => some i
  | .enable i => some i

theorem next_pc {s : State ι} {a : Act ι} {i : ι} (other : a.party ≠ some i) :
    (next call s a).pc i = s.pc i := by
  have go : ∀ {j pc}, some j ≠ some i → (s.go j pc).pc i = s.pc i := fun hj =>
    Function.update_of_ne (fun same => hj (congrArg some same.symm)) ..
  cases a with
  | byte b => exact congrFun (my_interrupt_pc s b).1 i
  | open_ => rfl
  | enter j | look j | signal j | disable j | copy j fault => exact go other
  | clear j | enable j =>
    simp only [next]
    split
    · exact go other
    · rfl

omit [DecidableEq ι] in
theorem enabled_party {s : State ι} {a : Act ι} {i : ι} (enabled : Enabled call s a)
    (own : a.party = some i) : s.pc i ≠ .faulted := by
  intro faulted
  cases a with
  | byte b | open_ => cases own
  | enter j | disable j | copy j fault =>
    cases own
    cases faulted.symm.trans enabled
  | look j | signal j =>
    cases own
    cases faulted.symm.trans enabled.1
  | clear j | enable j =>
    cases own
    obtain ⟨data, before⟩ := enabled
    cases faulted.symm.trans before

theorem next_bytes (s : State ι) {a : Act ι} (quiet : a.received = none) :
    (next call s a).bytes = s.bytes := by
  cases a with
  | byte b => cases quiet
  | open_ => rfl
  | enter j | look j | signal j | disable j | copy j fault => rfl
  | clear j | enable j =>
    simp only [next]
    split <;> rfl

/-- A call that has faulted stays so. -/
theorem faulted_run {as : List (Act ι)} {s t : State ι} (h : Run (machine call) s as t) {i : ι}
    (faulted : s.pc i = .faulted) : t.pc i = .faulted := by
  refine run_invariant (I := fun t : State ι => t.pc i = .faulted) faulted
    (fun t a stays enabled => ?_) h
  exact (next_pc call fun own => enabled_party call enabled own stays).trans stays

/-- The irq is enabled exactly while no call holds it, and once a call has returned `-EFAULT` not a
single byte of the mouse is received any more. -/
theorem fault_silences_mouse [Fintype ι] {as : List (Act ι)} {s : State ι}
    (h : Run (machine call) init as s) :
    (∀ b, Enabled call s (.byte b) ↔ ∀ i, (s.pc i).holds = false) ∧
      ∀ i, s.pc i = .faulted → ∀ bs t, Run (machine call) s bs t →
        bs.filterMap Act.received = [] ∧ t.bytes = s.bytes := by
  have calm : ∀ {bs t}, Run (machine call) s bs t →
      (t.disabled = 0 ↔ ∀ i, (t.pc i).holds = false) := by
    intro bs t run
    have counted : t.disabled = occupancy Pc.holds t.pc := counted_run call (run_append h run)
    rw [counted]
    constructor
    · intro none i
      by_contra held
      have some_held : 0 < occupancy Pc.holds t.pc := Finset.card_pos.mpr
        ⟨i, Finset.mem_filter.mpr ⟨Finset.mem_univ i, by simpa using held⟩⟩
      omega
    · exact occupancy_eq_zero
  refine ⟨fun _ => calm Run.start, fun i faulted bs t run => ?_⟩
  induction run with
  | start => exact ⟨rfl, rfl⟩
  | @next bs t a previous enabled ih =>
    obtain ⟨unheard, same⟩ := ih
    have quiet : a.received = none := by
      cases a with
      | byte b =>
        have held := (calm previous).mp enabled i
        rw [faulted_run call previous faulted] at held
        cases held
      | _ => rfl
    refine ⟨?_, (next_bytes call t quiet).trans same⟩
    rw [List.filterMap_append, unheard, List.filterMap_cons_none quiet]
    rfl

/-- A message, then the first byte of the next before the read that was waiting gets on: it hands
over a message that was never sent. -/
theorem read_hands_over_torn :
    let call : Fin 1 → Call := fun _ => ⟨3, false⟩
    let as : List (Act (Fin 1)) := [.byte 0x40, .byte 1, .byte 2, .enter 0, .look 0, .byte 0x7f,
      .disable 0]
    let s := (machine call).replay init as
    (next call s (.copy 0 false)).pc 0 = .clear [0x7f, 1, 2] ∧
      (receiver as).2.getLast? = some [0x40, 1, 2] := by
  intro call as s
  have run : Run (machine call) init as s :=
    run_of_admits ⟨rfl, rfl, rfl, rfl, ⟨rfl, Or.inl rfl⟩, rfl, rfl, trivial⟩
  obtain ⟨last, data, completed, hands, bytes, _⟩ := read_hands_over call run (i := 0) rfl
  have whole : (receiver as).2.getLast? = some [0x40, 1, 2] := by decide
  rw [whole] at completed
  cases completed
  rw [hands, bytes]
  exact ⟨by decide, whole⟩

/-- The user's page faults, and the mouse is not heard of again. -/
theorem fault_silences_mouse_once :
    let call : Fin 1 → Call := fun _ => ⟨3, false⟩
    let as : List (Act (Fin 1)) := [.byte 0x40, .byte 1, .byte 2, .enter 0, .look 0, .disable 0,
      .copy 0 true]
    let s := (machine call).replay init as
    ∀ bs t, Run (machine call) s bs t → bs.filterMap Act.received = [] ∧ t.bytes = s.bytes := by
  intro call as s
  have run : Run (machine call) init as s :=
    run_of_admits ⟨rfl, rfl, rfl, rfl, ⟨rfl, Or.inl rfl⟩, rfl, rfl, trivial⟩
  exact (fault_silences_mouse call run).2 0 rfl

end

end DeviceDriverEx.FullMouse
