import DeviceDriverEx.SeqFile
import Mathlib.Data.List.Nodup

namespace DeviceDriverEx.SeqFile

/-- Where a traversal stands: outside a session, behind a pointer that is not NULL, behind
`xbusy_show`, or behind a NULL. -/
inductive Phase
  | closed
  | found
  | shown
  | ended
  deriving DecidableEq

/-- The parameters, the position that the core saves, the positions shown so far and the text. -/
structure State where
  params : Params
  pos : Int64
  phase : Phase
  shown : List Int64
  text : List UInt8

/-- The calls of the core, at some time each, and the parameters rewritten. -/
inductive Act (w : Nat)
  | xbusy_start (jiffies : BitVec w)
  | xbusy_show (jiffies : BitVec w)
  | xbusy_next (jiffies : BitVec w)
  | xbusy_stop
  | items (v : Int32)
  | delay (v : Int32)

def init (params : Params) : State := ⟨params, 0, .closed, [], []⟩

def Phase.ofFound (f : Found) : Phase := if f.ptr then .found else .ended

section
variable {w : Nat}

/-- Sessions stop between two calls of `xbusy_show`. -/
def Enabled (s : State) : Act w → Prop
  | .xbusy_start _ => s.phase = .closed
  | .xbusy_show _ => s.phase = .found
  | .xbusy_next _ => s.phase = .shown
  | .xbusy_stop => s.phase = .found ∨ s.phase = .ended
  | .items _ => True
  | .delay _ => True

def next (HZ : Int32) (s : State) : Act w → State
  | .xbusy_start jiffies => { s with phase := .ofFound (xbusy_start HZ s.params jiffies s.pos) }
  | .xbusy_show jiffies =>
    { s with phase := .shown, shown := s.shown ++ [s.pos], text := s.text ++ xbusy_show jiffies }
  | .xbusy_next jiffies =>
    let (found, pos) := xbusy_next HZ s.params jiffies s.pos
    { s with phase := .ofFound found, pos := pos }
  | .xbusy_stop => { s with phase := .closed }
  | .items v => { s with params := { s.params with items := v } }
  | .delay v => { s with params := { s.params with delay := v } }

def machine (w : Nat) (HZ : Int32) : Machine State (Act w) := ⟨Enabled, next HZ⟩

instance (HZ : Int32) (s : State) : ∀ a : Act w, Decidable ((machine w HZ).Enabled s a)
  | .xbusy_start _ => inferInstanceAs (Decidable (s.phase = .closed))
  | .xbusy_show _ => inferInstanceAs (Decidable (s.phase = .found))
  | .xbusy_next _ => inferInstanceAs (Decidable (s.phase = .shown))
  | .xbusy_stop => inferInstanceAs (Decidable (s.phase = .found ∨ s.phase = .ended))
  | .items _ | .delay _ => isTrue trivial

/-- Every position below the one reached has been shown, and only once. -/
structure Consecutive (s : State) : Prop where
  shown : s.shown.map Int64.toInt = (List.range s.shown.length).map Nat.cast
  pos : s.phase ≠ .shown → s.pos.toInt = s.shown.length
  behind : s.phase = .shown → s.pos.toInt + 1 = s.shown.length
  low : s.phase = .found ∨ s.phase = .shown → s.pos.toInt < 2 ^ 31

theorem ofFound_ne_shown (f : Found) : Phase.ofFound f ≠ .shown := by
  unfold Phase.ofFound
  split <;> decide

theorem ofFound_eq_found {f : Found} : Phase.ofFound f = .found ↔ f.ptr = true := by
  unfold Phase.ofFound
  split <;> simp_all

/-- The function of a call is behind a position that was compared to `items`. -/
theorem found_low {HZ : Int32} {p : Params} {jiffies : BitVec w} {pos : Int64}
    (h : Phase.ofFound (xbusy_start HZ p jiffies pos) = .found) : pos.toInt < 2 ^ 31 := by
  have more := (xbusy_start_ptr HZ p jiffies pos).mp (ofFound_eq_found.mp h)
  have bound := p.items.toInt_lt
  omega

theorem toInt_succ {pos : Int64} (low : pos.toInt < 2 ^ 31) (from_start : -1 ≤ pos.toInt) :
    (pos + 1).toInt = pos.toInt + 1 := by
  rw [Int64.toInt_add]
  exact Int.bmod_eq_of_le_mul_two (by simp; omega) (by simp; omega)

variable {HZ items : Int32} {s t : State} {a : Act w} {as : List (Act w)}

theorem next_xbusy_next (s : State) (jiffies : BitVec w) : next HZ s (.xbusy_next jiffies) =
    { s with
      phase := .ofFound (xbusy_start HZ s.params jiffies (s.pos + 1))
      pos := s.pos + 1 } := by
  rw [← xbusy_next_found, ← xbusy_next_pos HZ s.params jiffies]
  rfl

theorem consecutive_step (h : Consecutive s) (enabled : Enabled s a) :
    Consecutive (next HZ s a) := by
  obtain ⟨shown, pos, behind, low⟩ := h
  cases a with
  | xbusy_start jiffies =>
    have here := pos (enabled.trans_ne (by decide))
    refine ⟨shown, fun _ => here, fun bad => absurd bad (ofFound_ne_shown _), fun more => ?_⟩
    exact found_low (more.resolve_right (ofFound_ne_shown _))
  | xbusy_show jiffies =>
    have here := pos (enabled.trans_ne (by decide))
    refine ⟨?_, fun bad => absurd rfl bad, fun _ => ?_, fun _ => low (Or.inl enabled)⟩
    · simp only [next, List.map_append, List.length_append, List.length_singleton,
        List.range_succ, shown, List.map_singleton, here]
    · simp [next, here]
  | xbusy_next jiffies =>
    have last := behind enabled
    have moved := toInt_succ (low (Or.inr enabled)) (by omega)
    rw [next_xbusy_next]
    refine ⟨shown, fun _ => moved.trans last, fun bad => absurd bad (ofFound_ne_shown _),
      fun more => ?_⟩
    exact found_low (more.resolve_right (ofFound_ne_shown _))
  | xbusy_stop =>
    have here := pos (by rcases enabled with h | h <;> rw [h] <;> decide)
    exact ⟨shown, fun _ => here, nofun, nofun⟩
  | items v => exact ⟨shown, pos, behind, low⟩
  | delay v => exact ⟨shown, pos, behind, low⟩

theorem consecutive_init (p : Params) : Consecutive (init p) := by
  refine ⟨rfl, fun _ => rfl, fun bad => ?_, fun bad => ?_⟩
  · cases bad
  · rcases bad with bad | bad <;> cases bad

theorem consecutive_run {p : Params} (h : Run (machine w HZ) (init p) as s) : Consecutive s :=
  run_invariant (consecutive_init p) (fun _ _ => consecutive_step) h

theorem Consecutive.nodup (h : Consecutive s) : s.shown.Nodup := by
  apply List.Nodup.of_map Int64.toInt
  rw [h.shown]
  exact List.nodup_range.map fun _ _ => Int.ofNat.inj

/-- `items` is not written in the course of the calls. -/
def ItemsKept (as : List (Act w)) : Prop := ∀ v, Act.items v ∉ as

theorem ItemsKept.meets (kept : ItemsKept as) :
    Meets (machine w HZ) (fun _ a => ∀ v, a ≠ .items v) s as := by
  rintro pre a post u rfl _ v rfl
  exact kept v (List.mem_append_right pre List.mem_cons_self)

/-- What is known of the position while `items` stays as it is. -/
structure Kept (items : Int32) (s : State) : Prop where
  same : s.params.items = items
  more : s.phase = .found ∨ s.phase = .shown → s.pos.toInt < items.toInt
  past : s.phase = .ended → items.toInt ≤ s.pos.toInt
  bound : s.pos.toInt ≤ max items.toInt 0

theorem kept_xbusy_start (same : s.params.items = items) (jiffies : BitVec w) (pos : Int64)
    (bound : pos.toInt ≤ max items.toInt 0) :
    Kept items { s with
      phase := .ofFound (xbusy_start HZ s.params jiffies pos)
      pos := pos } := by
  have decided := xbusy_start_ptr HZ s.params jiffies pos
  rw [same] at decided
  refine ⟨same, fun more => ?_, fun past => ?_, bound⟩
  · exact decided.mp (ofFound_eq_found.mp (more.resolve_right (ofFound_ne_shown _)))
  · refine Int.not_lt.mp fun below => ?_
    have found := ofFound_eq_found.mpr (decided.mpr below)
    cases past.symm.trans found

theorem kept_step (h : Kept items s) (inv : Consecutive s) (enabled : Enabled s a)
    (other : ∀ v, a ≠ .items v) : Kept items (next HZ s a) := by
  obtain ⟨same, more, past, bound⟩ := h
  cases a with
  | xbusy_start jiffies => exact kept_xbusy_start same jiffies s.pos bound
  | xbusy_show jiffies => exact ⟨same, fun _ => more (Or.inl enabled), nofun, bound⟩
  | xbusy_next jiffies =>
    have last := inv.behind enabled
    have moved := toInt_succ (inv.low (Or.inr enabled)) (by omega)
    have below := more (Or.inr enabled)
    rw [next_xbusy_next]
    exact kept_xbusy_start same jiffies (s.pos + 1) (by omega)
  | xbusy_stop => exact ⟨same, nofun, nofun, bound⟩
  | items v => exact absurd rfl (other v)
  | delay v => exact ⟨same, more, past, bound⟩

theorem kept_run {p : Params} (h : Run (machine w HZ) (init p) as s) (kept : ItemsKept as) :
    Kept p.items s := by
  have base : Kept p.items (init p) := by
    refine ⟨rfl, fun bad => ?_, fun bad => ?_, Int.le_max_right _ _⟩
    · rcases bad with bad | bad <;> cases bad
    · cases bad
  have both := run_invariant_of_meets (I := fun s => Consecutive s ∧ Kept p.items s)
    ⟨consecutive_init p, base⟩
    (fun _ _ inv enabled other =>
      ⟨consecutive_step inv.1 enabled, kept_step inv.2 inv.1 enabled other⟩) h kept.meets
  exact both.2

/-- Behind the end nothing is shown any more. -/
structure Finished (items : Int32) (shown : List Int64) (s : State) : Prop where
  same : s.params.items = items
  shown : s.shown = shown
  phase : s.phase = .closed ∨ s.phase = .ended
  past : items.toInt ≤ s.pos.toInt

theorem xbusy_start_null (past : items.toInt ≤ s.pos.toInt) (same : s.params.items = items)
    (jiffies : BitVec w) : (xbusy_start HZ s.params jiffies s.pos).ptr = false := by
  refine Bool.eq_false_iff.mpr fun found => ?_
  rw [xbusy_start_ptr, same] at found
  omega

theorem finished_step {shown : List Int64} (h : Finished items shown s) (enabled : Enabled s a)
    (other : ∀ v, a ≠ .items v) : Finished items shown (next HZ s a) := by
  obtain ⟨same, earlier, phase, past⟩ := h
  cases a with
  | xbusy_start jiffies =>
    refine ⟨same, earlier, Or.inr ?_, past⟩
    simp [next, Phase.ofFound, xbusy_start_null past same]
  | xbusy_show jiffies => simp_all [Enabled]
  | xbusy_next jiffies => simp_all [Enabled]
  | xbusy_stop => exact ⟨same, earlier, Or.inl rfl, past⟩
  | items v => exact absurd rfl (other v)
  | delay v => exact ⟨same, earlier, phase, past⟩

theorem finished_run {shown : List Int64} (h : Run (machine w HZ) s as t) (kept : ItemsKept as)
    (start : Finished items shown s) : Finished items shown t :=
  run_invariant_of_meets start (fun _ _ => finished_step) h kept.meets

/-- How many positions have been shown when a session ends by itself, or cannot begin. -/
theorem Consecutive.length_iff (inv : Consecutive s) (kept : Kept items s)
    (between : s.phase ≠ .shown) :
    items.toInt ≤ s.pos.toInt ↔ (s.shown.length : Int) = max items.toInt 0 := by
  have here := inv.pos between
  have bound := kept.bound
  omega

/-- The positions come in order and none twice; with `items` kept, a session finds its end where
all of them have been shown, and no later one shows any. -/
theorem xbusy_traversal {items delay : Int32}
    (h : Run (machine w HZ) (init ⟨items, delay⟩) as s) :
    s.shown.map Int64.toInt = (List.range s.shown.length).map Nat.cast ∧ s.shown.Nodup ∧
    (ItemsKept as →
      (s.shown.length : Int) ≤ max items.toInt 0 ∧
      (s.phase = .closed → ∀ jiffies : BitVec w,
        (xbusy_start HZ s.params jiffies s.pos).ptr = false ↔
          (s.shown.length : Int) = max items.toInt 0) ∧
      (s.phase = .ended → (s.shown.length : Int) = max items.toInt 0 ∧
        ∀ bs t, Run (machine w HZ) s bs t → ItemsKept bs →
          t.shown = s.shown ∧
          ∀ jiffies : BitVec w, (xbusy_start HZ t.params jiffies t.pos).ptr = false)) ∧
    ∀ (p : Params) (jiffies later : BitVec w) (pos : Int64),
      (xbusy_next HZ p jiffies pos).1.ptr =
        (xbusy_start HZ p later (xbusy_next HZ p jiffies pos).2).ptr := by
  have inv := consecutive_run h
  refine ⟨inv.shown, inv.nodup, fun fixed => ?_, fun p jiffies later pos => ?_⟩
  · have kept : Kept items s := kept_run h fixed
    refine ⟨?_, fun closed jiffies => ?_, fun ended => ?_⟩
    · rcases Decidable.em (s.phase = .shown) with shown | other
      · have last := inv.behind shown
        have more := kept.more (Or.inr shown)
        omega
      · have here := inv.pos other
        have bound := kept.bound
        omega
    · rw [← inv.length_iff kept (closed.trans_ne (by decide)), ← Bool.not_eq_true,
        xbusy_start_ptr, kept.same, Int.not_lt]
    · have past := kept.past ended
      refine ⟨(inv.length_iff kept (ended.trans_ne (by decide))).mp past, fun bs t run fixed => ?_⟩
      have finished := finished_run run fixed ⟨kept.same, rfl, Or.inr ended, past⟩
      exact ⟨finished.shown, xbusy_start_null finished.past finished.same⟩
  · rw [xbusy_next_found, xbusy_next_pos, Bool.eq_iff_iff, xbusy_start_ptr, xbusy_start_ptr]

/-- Two positions, shown in two sessions. -/
theorem xbusy_traversal_two :
    let calls : List (Act 64) := [.xbusy_start 0, .xbusy_show 0, .xbusy_next 0, .xbusy_stop,
      .xbusy_start 1, .xbusy_show 1, .xbusy_next 1]
    (((machine 64 100).replay (init ⟨2, 0⟩) calls).shown.length : Int) =
      max (2 : Int32).toInt 0 := by
  intro calls
  have run : Run (machine 64 100) (init ⟨2, 0⟩) calls _ := run_of_admits (by decide)
  have fixed : ItemsKept calls := by
    intro v hv
    simp [calls] at hv
  exact (((xbusy_traversal run).2.2.1 fixed).2.2 (by decide)).1

end

end DeviceDriverEx.SeqFile
