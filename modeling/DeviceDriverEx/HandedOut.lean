import DeviceDriverEx.Bytes
import DeviceDriverEx.Machine

namespace DeviceDriverEx

/-- What a program does with buffers that an allocator hands out without clearing them. -/
inductive BufferOp (κ : Type)
  | handOut (b : κ)
  | store (b : κ) (pos : Nat) (src : Bytes) (n : Nat)
  | load (b : κ) (pos n : Nat)

/-- What stands in the buffers after some operations, the newest first: `given 0` is what stood
there before, and `given i` what the `i`-th operation handed out. -/
def contents {κ : Type} [DecidableEq κ] (given : Nat → κ → Bytes) :
    List (BufferOp κ) → κ → Bytes
  | [] => given 0
  | .handOut b :: ops => Function.update (contents given ops) b (given (ops.length + 1) b)
  | .store b pos src n :: ops =>
    Function.update (contents given ops) b (copyBytes (contents given ops b) pos src 0 n)
  | .load _ _ _ :: ops => contents given ops

/-- The byte at offset `k` of `b` has been stored since the buffer was handed out. -/
def stored {κ : Type} [DecidableEq κ] : List (BufferOp κ) → κ → Nat → Bool
  | [], _, _ => false
  | .handOut b :: ops, x, k => x ≠ b && stored ops x k
  | .store b pos _ n :: ops, x, k => (x = b && (pos ≤ k && k < pos + n)) || stored ops x k
  | .load _ _ _ :: ops, x, k => stored ops x k

section
variable {κ : Type} [DecidableEq κ]

theorem contents_store_self (given : Nat → κ → Bytes) (ops : List (BufferOp κ)) (b : κ)
    (pos : Nat) (src : Bytes) (n : Nat) : contents given (.store b pos src n :: ops) b =
      copyBytes (contents given ops b) pos src 0 n :=
  Function.update_self ..

theorem contents_store_of_ne (given : Nat → κ → Bytes) (ops : List (BufferOp κ)) {b x : κ}
    (h : x ≠ b) (pos : Nat) (src : Bytes) (n : Nat) :
    contents given (.store b pos src n :: ops) x = contents given ops x :=
  Function.update_of_ne h ..

theorem contents_of_stored {ops : List (BufferOp κ)} {x : κ} {k : Nat}
    (h : stored ops x k = true) (g g' : Nat → κ → Bytes) :
    contents g ops x k = contents g' ops x k := by
  induction ops with
  | nil => cases h
  | cons op ops ih =>
    cases op with
    | handOut b =>
      simp only [stored, Bool.and_eq_true, decide_eq_true_eq] at h
      rw [contents, contents, Function.update_of_ne h.1, Function.update_of_ne h.1]
      exact ih h.2
    | store b pos src n =>
      simp only [stored, Bool.or_eq_true, Bool.and_eq_true, decide_eq_true_eq] at h
      by_cases hx : x = b
      · subst hx
        rw [contents_store_self, contents_store_self]
        unfold copyBytes
        split
        next => rfl
        next outside => exact ih (h.resolve_left fun new => outside new.2)
      · rw [contents_store_of_ne g ops hx, contents_store_of_ne g' ops hx]
        exact ih (h.resolve_left fun new => hx new.1)
    | load b pos n => exact ih h

theorem contents_of_not_stored {ops : List (BufferOp κ)} {x : κ} {k : Nat}
    (h : stored ops x k = false) : ∃ i, ∀ g : Nat → κ → Bytes, contents g ops x k = g i x k := by
  induction ops with
  | nil => exact ⟨0, fun _ => rfl⟩
  | cons op ops ih =>
    cases op with
    | handOut b =>
      by_cases hx : x = b
      · subst hx
        exact ⟨ops.length + 1, fun g => congrFun (Function.update_self ..) k⟩
      · have older : stored ops x k = false := by simpa [stored, hx] using h
        obtain ⟨i, hi⟩ := ih older
        exact ⟨i, fun g => (congrFun (Function.update_of_ne hx ..) k).trans (hi g)⟩
    | store b pos src n =>
      simp only [stored, Bool.or_eq_false_iff] at h
      obtain ⟨i, hi⟩ := ih h.2
      refine ⟨i, fun g => ?_⟩
      by_cases hx : x = b
      · subst hx
        have outside : ¬ (pos ≤ k ∧ k < pos + n) := by simpa using h.1
        rw [contents_store_self, copyBytes_outside (by omega)]
        exact hi g
      · rw [contents_store_of_ne g ops hx]
        exact hi g
    | load b pos n => exact ih h

/-- What a load delivers is the same for any two buffers handed out exactly if all of its bytes
have been stored. -/
theorem load_agrees_iff (ops : List (BufferOp κ)) (b : κ) (pos n : Nat) :
    (∀ g g' : Nat → κ → Bytes, ∀ k < n, contents g ops b (pos + k) = contents g' ops b (pos + k)) ↔
      ∀ k < n, stored ops b (pos + k) = true := by
  constructor
  · intro agree k hk
    by_contra unknown
    obtain ⟨i, hi⟩ := contents_of_not_stored (Bool.eq_false_iff.mpr unknown)
    have same := agree (fun _ _ _ => 0) (fun _ _ _ => 1) k hk
    rw [hi, hi] at same
    cases same
  · exact fun known g g' k hk => contents_of_stored (known k hk) g g'

end

/-- Machines that take the same steps whatever memory `g` they run on; `under t g` is the state
that the steps to `t` lead to on `g`, and `I` holds along the runs. -/
structure SameSteps {γ τ α : Type} (m : γ → Machine τ α) (start : γ → τ) (under : τ → γ → τ)
    (I : τ → Prop) : Prop where
  base : ∀ g, I (start g)
  keep : ∀ g t a, I t → (m g).Enabled t a → I ((m g).next t a)
  start : ∀ g g', start g' = under (start g) g'
  enabled : ∀ g g' t a, I t → (m g).Enabled t a → (m g').Enabled (under t g') a
  next : ∀ g g' t a, I t → (m g).Enabled t a →
    (m g').next (under t g') a = under ((m g).next t a) g'

section
variable {γ τ α : Type} {m : γ → Machine τ α} {start : γ → τ} {under : τ → γ → τ} {I : τ → Prop}

/-- A run on one memory is one on any other. -/
theorem SameSteps.run (h : SameSteps m start under I) {g : γ} {as : List α} {t : τ}
    (run : Run (m g) (start g) as t) : I t ∧ ∀ g', Run (m g') (start g') as (under t g') := by
  induction run with
  | start => exact ⟨h.base g, fun g' => h.start g g' ▸ Run.start⟩
  | next _ enabled ih =>
    obtain ⟨inv, runs⟩ := ih
    refine ⟨h.keep g _ _ inv enabled, fun g' => ?_⟩
    rw [← h.next g g' _ _ inv enabled]
    exact Run.next (runs g') (h.enabled g g' _ _ inv enabled)

/-- Where a condition says of each step whether it delivers the same on any two memories, it says
of a run whether all its steps do. -/
theorem SameSteps.related_deliverAlike_iff {ρ : Type} {delivered : τ → α → ρ} {ok : τ → α → Prop}
    {Related : γ → γ → Prop} (h : SameSteps m start under I) {g₀ : γ} {as : List α} {s : τ}
    (step : ∀ t a, I t → (m g₀).Enabled t a →
      ((∀ g g', Related g g' → delivered (under t g) a = delivered (under t g') a) ↔ ok t a))
    (run : Run (m g₀) (start g₀) as s) :
    (∀ g g', Related g g' → DeliverAlike (m g) (m g') (start g) (start g') delivered as) ↔
      Meets (m g₀) ok (start g₀) as := by
  constructor
  · intro alike pre a post t split before
    obtain ⟨t', again, enabled⟩ := run_before (split ▸ run)
    cases run_unique before again
    obtain ⟨inv, runs⟩ := h.run before
    exact (step t a inv enabled).mp fun g g' related =>
      alike g g' related pre a post _ _ split (runs g) (runs g')
  · intro meets g g' related pre a post u u' split first second
    obtain ⟨t, before, enabled⟩ := run_before (split ▸ run)
    obtain ⟨inv, runs⟩ := h.run before
    rw [run_unique first (runs g), run_unique second (runs g')]
    exact (step t a inv enabled).mpr (meets pre a post t split before) g g' related

theorem SameSteps.deliverAlike_iff {ρ : Type} {delivered : τ → α → ρ} {ok : τ → α → Prop}
    (h : SameSteps m start under I) {g₀ : γ} {as : List α} {s : τ}
    (step : ∀ t a, I t → (m g₀).Enabled t a →
      ((∀ g g', delivered (under t g) a = delivered (under t g') a) ↔ ok t a))
    (run : Run (m g₀) (start g₀) as s) :
    (∀ g g', DeliverAlike (m g) (m g') (start g) (start g') delivered as) ↔
      Meets (m g₀) ok (start g₀) as := by
  have related := @SameSteps.related_deliverAlike_iff _ _ _ m start under I _ delivered ok
    (fun _ _ => True) h _ _ _ (fun t a inv enabled => by simpa using step t a inv enabled) run
  simpa using related

end

end DeviceDriverEx
