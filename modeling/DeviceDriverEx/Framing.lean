import Mathlib.Data.List.Basic

namespace DeviceDriverEx

/-- A receiver that puts `len` units together to a packet, which begins with a marked one. -/
structure Framing (β : Type) where
  len : Nat
  pos : 0 < len
  mark : β → Bool

namespace Framing

variable {β : Type} (f : Framing β)

/-- What has been received of a packet that is not complete. -/
@[ext]
structure Partial where
  got : List β
  short : got.length < f.len

def idle : f.Partial := ⟨[], f.pos⟩

/-- One unit is dropped if no packet has begun and it is not marked. A complete packet is handed
on. -/
def step (s : f.Partial) (b : β) : f.Partial × Option (List β) :=
  if s.got ≠ [] ∨ f.mark b = true then
    if h : (s.got ++ [b]).length < f.len then (⟨s.got ++ [b], h⟩, none)
    else (f.idle, some (s.got ++ [b]))
  else (s, none)

/-- The packets handed on while the units are received one by one. -/
def feed : f.Partial → List β → f.Partial × List (List β)
  | s, [] => (s, [])
  | s, b :: bs => ((feed (f.step s b).1 bs).1, (f.step s b).2.toList ++ (feed (f.step s b).1 bs).2)

/-- A packet as it is sent: the first unit, and no other, is marked. -/
structure IsPacket (p : List β) : Prop where
  length : p.length = f.len
  head : ∀ b ∈ p.head?, f.mark b = true
  tail : ∀ b ∈ p.tail, f.mark b = false

variable {f}

theorem feed_append (s : f.Partial) (bs cs : List β) : f.feed s (bs ++ cs) =
    ((f.feed (f.feed s bs).1 cs).1, (f.feed s bs).2 ++ (f.feed (f.feed s bs).1 cs).2) := by
  induction bs generalizing s with
  | nil => rfl
  | cons b bs ih => simp only [List.cons_append, feed, ih, List.append_assoc]

theorem feed_concat (s : f.Partial) (bs : List β) (b : β) : f.feed s (bs ++ [b]) =
    ((f.step (f.feed s bs).1 b).1, (f.feed s bs).2 ++ (f.step (f.feed s bs).1 b).2.toList) := by
  rw [feed_append]
  simp [feed]

/-- Before a packet has begun, units that are not marked leave no trace. -/
theorem feed_unmarked {bs : List β} (h : ∀ b ∈ bs, f.mark b = false) :
    f.feed f.idle bs = (f.idle, []) := by
  induction bs with
  | nil => rfl
  | cons b bs ih =>
    have drop : f.step f.idle b = (f.idle, none) := by
      simp [step, idle, h b List.mem_cons_self]
    simp [feed, drop, ih fun c hc => h c (List.mem_cons_of_mem _ hc)]

/-- Once a packet has begun, whatever comes next completes it. -/
theorem feed_begun {s : f.Partial} {bs : List β} (begun : s.got ≠ [])
    (whole : s.got.length + bs.length = f.len) : f.feed s bs = (f.idle, [s.got ++ bs]) := by
  induction bs generalizing s with
  | nil =>
    have short := s.short
    simp only [List.length_nil] at whole
    omega
  | cons b bs ih =>
    by_cases more : (s.got ++ [b]).length < f.len
    · have taken : f.step s b = (⟨s.got ++ [b], more⟩, none) := by simp only [step, begun, more,
        ne_eq, not_false_eq_true, true_or, if_true, dif_pos]
      have rest : (s.got ++ [b]).length + bs.length = f.len := by
        simp only [List.length_append, List.length_cons, List.length_nil] at whole ⊢
        omega
      have go := @ih ⟨s.got ++ [b], more⟩ (List.append_ne_nil_of_right_ne_nil _ (by simp)) rest
      simp [feed, taken, go]
    · have done : f.step s b = (f.idle, some (s.got ++ [b])) := by simp only [step, begun, more,
        ne_eq, not_false_eq_true, true_or, if_true, dif_neg]
      have last : bs = [] := by
        refine List.length_eq_zero_iff.mp ?_
        simp only [List.length_append, List.length_cons, List.length_nil] at whole more
        omega
      simp [feed, done, last]

theorem feed_packet {p : List β} (h : f.IsPacket p) : f.feed f.idle p = (f.idle, [p]) := by
  obtain ⟨length, head, tail⟩ := h
  have pos := f.pos
  cases p with
  | nil =>
    simp only [List.length_nil] at length
    omega
  | cons b bs =>
    have marked : f.mark b = true := head b rfl
    simp only [List.length_cons] at length
    by_cases more : 1 < f.len
    · have taken : f.step f.idle b = (⟨[b], more⟩, none) := by simp [step, idle, marked, more]
      have go := @feed_begun β f ⟨[b], more⟩ bs (by simp)
        (by simp only [List.length_cons, List.length_nil]; omega)
      simp [feed, taken, go]
    · have done : f.step f.idle b = (f.idle, some [b]) := by simp [step, idle, marked, more]
      have last : bs = [] := List.length_eq_zero_iff.mp (by omega)
      simp [feed, done, last]

/-- A receiver that is out of step completes what it has with the front of the next packet, drops
the rest of it, and is in step again. -/
theorem feed_resync {s : f.Partial} {p : List β} (begun : s.got ≠ []) (h : f.IsPacket p) :
    f.feed s p = (f.idle, [s.got ++ p.take (f.len - s.got.length)]) := by
  obtain ⟨length, _, tail⟩ := h
  have short := s.short
  have some_got : 0 < s.got.length := List.length_pos_of_ne_nil begun
  have front := @feed_begun β f s (p.take (f.len - s.got.length)) begun
    (by rw [List.length_take]; omega)
  have rest : f.feed f.idle (p.drop (f.len - s.got.length)) = (f.idle, []) := by
    refine feed_unmarked fun b hb => tail b ?_
    cases p with
    | nil => simp at hb
    | cons c cs =>
      rw [show f.len - s.got.length = f.len - s.got.length - 1 + 1 by omega,
        List.drop_succ_cons] at hb
      exact List.mem_of_mem_drop hb
  conv => lhs; rw [← List.take_append_drop (f.len - s.got.length) p]
  rw [feed_append, front, rest]
  rfl

theorem feed_packets {ps : List (List β)} (h : ∀ p ∈ ps, f.IsPacket p) :
    f.feed f.idle ps.flatten = (f.idle, ps) := by
  induction ps with
  | nil => rfl
  | cons p ps ih =>
    rw [List.flatten_cons, feed_append, feed_packet (h p List.mem_cons_self),
      ih fun q hq => h q (List.mem_cons_of_mem _ hq)]
    rfl

/-- Whatever came before, of the packets that follow only the first can be lost, and one that was
never sent can stand in its place. -/
theorem feed_packets_from (s : f.Partial) {p : List β} {ps : List (List β)}
    (h : ∀ q ∈ p :: ps, f.IsPacket q) : f.feed s (p :: ps).flatten = (f.idle,
      (if s.got = [] then p else s.got ++ p.take (f.len - s.got.length)) :: ps) := by
  have first := h p List.mem_cons_self
  have rest := feed_packets fun q hq => h q (List.mem_cons_of_mem p hq)
  split
  next in_step =>
    have here : s = f.idle := Partial.ext in_step
    rw [List.flatten_cons, feed_append, here, feed_packet first, rest]
    rfl
  next begun =>
    rw [List.flatten_cons, feed_append, feed_resync begun first, rest]
    rfl

end Framing

end DeviceDriverEx
