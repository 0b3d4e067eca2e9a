import DeviceDriverEx.Globalmem
import DeviceDriverEx.Machine

namespace DeviceDriverEx

/-- What changes the bytes of a device or shows them: the user copy of a call, or `MEM_CLEAR`. -/
inductive Touch (ι δ : Type)
  | copy (i : ι) (fault : Option Fault)
  | clear (dev : δ)

/-- A step of a call in progress, or an ioctl that clears a device. -/
inductive Op (α δ : Type)
  | step (a : α)
  | clear (dev : δ)

def Machine.withClear {σ α δ : Type} (m : Machine σ α) (clear : σ → δ → σ) :
    Machine σ (Op α δ) where
  Enabled
    | s, .step a => m.Enabled s a
    | _, .clear _ => True
  next
    | s, .step a => m.next s a
    | s, .clear dev => clear s dev

instance {σ α δ : Type} (m : Machine σ α) (clear : σ → δ → σ) [∀ s a, Decidable (m.Enabled s a)] :
    ∀ s a, Decidable ((m.withClear clear).Enabled s a)
  | s, .step a => inferInstanceAs (Decidable (m.Enabled s a))
  | _, .clear _ => inferInstanceAs (Decidable True)

def Request.dev {δ : Type} : Request δ → δ
  | .read dev _ _ _ => dev
  | .write dev _ _ _ => dev

section
variable {ι δ : Type} [DecidableEq δ]

def touch (call : ι → Request δ) (mem : δ → Bytes) : Touch ι δ → δ → Bytes
  | .copy i fault =>
    match call i with
    | .read _ _ _ _ => mem
    | .write dev buf count ppos => Function.update mem dev
        (copyIn fault (mem dev) buf (clampCount ppos.toUInt64 count) ppos).bytes
  | .clear dev => Function.update mem dev (globalmem_ioctl (mem dev) MEM_CLEAR).2

def touchAll (call : ι → Request δ) (mem : δ → Bytes) (ts : List (Touch ι δ)) : δ → Bytes :=
  ts.foldl (touch call) mem

theorem touchAll_concat (call : ι → Request δ) (mem : δ → Bytes) (ts : List (Touch ι δ))
    (t : Touch ι δ) : touchAll call mem (ts ++ [t]) = touch call (touchAll call mem ts) t := by
  simp [touchAll, List.foldl_append]

/-- The touches that may change the bytes of `d`. -/
def storesTo (call : ι → Request δ) (d : δ) : Touch ι δ → Bool
  | .copy i _ =>
    match call i with
    | .read _ _ _ _ => false
    | .write dev _ _ _ => decide (dev = d)
  | .clear dev => decide (dev = d)

/-- The calls on `d` are the same in both families. -/
def SameOn (d : δ) (call call' : ι → Request δ) : Prop :=
  ∀ i, (call i).dev = d ∨ (call' i).dev = d → call i = call' i

theorem touch_elsewhere {call : ι → Request δ} {d : δ} {t : Touch ι δ}
    (h : storesTo call d t = false) (mem : δ → Bytes) : touch call mem t d = mem d := by
  cases t with
  | copy i fault =>
    cases hc : call i with
    | read dev buf count ppos => simp only [touch, hc]
    | write dev buf count ppos =>
      simp only [storesTo, hc, decide_eq_false_iff_not] at h
      simp only [touch, hc]
      exact Function.update_of_ne (Ne.symm h) ..
  | clear dev =>
    simp only [storesTo, decide_eq_false_iff_not] at h
    exact Function.update_of_ne (Ne.symm h) ..

/-- A touch that may change `d` finds the same call in both families and makes the same bytes of
the same bytes. -/
theorem touch_same {call call' : ι → Request δ} {d : δ} (same : SameOn d call call')
    {t : Touch ι δ} (h : storesTo call d t = true) {mem mem' : δ → Bytes} (hm : mem d = mem' d) :
    touch call mem t d = touch call' mem' t d := by
  cases t with
  | copy i fault =>
    cases hc : call i with
    | read dev buf count ppos => simp [storesTo, hc] at h
    | write dev buf count ppos =>
      simp only [storesTo, hc, decide_eq_true_eq] at h
      subst h
      have hc' : call' i = .write dev buf count ppos := by
        rw [← same i (Or.inl (by rw [hc]; rfl)), hc]
      simp only [touch, hc, hc', Function.update_self, hm]
  | clear dev =>
    simp only [storesTo, decide_eq_true_eq] at h
    subst h
    simp only [touch, Function.update_self, hm]

/-- The bytes of a device are made by the touches that store to it. -/
theorem touchAll_filter (call : ι → Request δ) (d : δ) (ts : List (Touch ι δ)) (mem : δ → Bytes) :
    touchAll call mem ts d = touchAll call mem (ts.filter (storesTo call d)) d := by
  induction ts using List.reverseRecOn with
  | nil => rfl
  | append_singleton ts t ih =>
    rw [touchAll_concat, List.filter_append]
    by_cases ht : storesTo call d t = true
    · rw [List.filter_cons_of_pos ht, List.filter_nil, touchAll_concat]
      exact touch_same (fun _ _ => rfl) ht ih
    · have elsewhere : storesTo call d t = false := by simpa using ht
      rw [touch_elsewhere elsewhere, List.filter_cons_of_neg ht, List.filter_nil, List.append_nil]
      exact ih

/-- What happens on the other devices, and who calls there, does not show in the bytes of `d`. -/
theorem touchAll_independent {call call' : ι → Request δ} {d : δ} (same : SameOn d call call')
    {ts ts' : List (Touch ι δ)}
    (order : ts.filter (storesTo call d) = ts'.filter (storesTo call' d)) (mem : δ → Bytes) :
    touchAll call mem ts d = touchAll call' mem ts' d := by
  have both : ∀ us : List (Touch ι δ), (∀ t ∈ us, storesTo call d t = true) →
      touchAll call mem us d = touchAll call' mem us d := by
    intro us
    induction us using List.reverseRecOn with
    | nil => exact fun _ => rfl
    | append_singleton us u ih =>
      intro hus
      rw [touchAll_concat, touchAll_concat]
      exact touch_same same (hus u (by simp)) (ih fun t ht => hus t (by simp [ht]))
  rw [touchAll_filter call, touchAll_filter call', ← order]
  exact both _ fun t ht => (List.mem_filter.mp ht).2

/-- A call as its caller sees it: whether it has returned, what its wait came to, and its
result. -/
structure View where
  done : Prop
  waited : Int32
  result : CallResult

/-- Every read shows the bytes that the touches before its copy have left, or none at all. -/
structure Shown (drv : Driver) (call : ι → Request δ) (mem : δ → Bytes) (ts : List (Touch ι δ))
    (view : ι → View) : Prop where
  copied : ∀ i dev buf count ppos, call i = .read dev buf count ppos →
    ∀ pre fault post, ts = pre ++ .copy i fault :: post → (view i).done ∧
      (view i).result = globalmem_read drv (view i).waited fault (touchAll call mem pre dev) buf
        count ppos
  uncopied : ∀ i dev buf count ppos, call i = .read dev buf count ppos → (view i).done →
    (∀ fault, .copy i fault ∉ ts) → ∀ fault seen,
      (view i).result = globalmem_read drv (view i).waited fault seen buf count ppos

variable {drv : Driver} {call : ι → Request δ} {mem : δ → Bytes} {ts : List (Touch ι δ)}
  {view view' : ι → View}

theorem shown_init (h : ∀ i, ¬ (view i).done) : Shown drv call mem [] view := by
  refine ⟨?_, ?_⟩
  · intro i dev buf count ppos hc pre fault post he
    simp at he
  · intro i dev buf count ppos hc done
    exact absurd done (h i)

/-- Nobody's view of a finished call changes, and a read that finishes without a copy has a result
that no bytes enter. -/
theorem shown_quiet (h : Shown drv call mem ts view)
    (kept : ∀ i dev buf count ppos, call i = .read dev buf count ppos → (view i).done →
      view' i = view i)
    (ended : ∀ i dev buf count ppos, call i = .read dev buf count ppos → ¬ (view i).done →
      (view' i).done → ∀ fault seen,
        (view' i).result = globalmem_read drv (view' i).waited fault seen buf count ppos) :
    Shown drv call mem ts view' := by
  refine ⟨?_, ?_⟩
  · intro i dev buf count ppos hc pre fault post he
    have old := h.copied i dev buf count ppos hc pre fault post he
    rw [kept i dev buf count ppos hc old.1]
    exact old
  · intro i dev buf count ppos hc done away
    by_cases before : (view i).done
    · rw [kept i dev buf count ppos hc before] at done ⊢
      exact h.uncopied i dev buf count ppos hc before away
    · exact ended i dev buf count ppos hc before done

theorem shown_touch (h : Shown drv call mem ts view) {t : Touch ι δ}
    (other : ∀ i fault, t = .copy i fault → ∀ dev buf count ppos,
      call i ≠ .read dev buf count ppos)
    (kept : ∀ i dev buf count ppos, call i = .read dev buf count ppos → view' i = view i) :
    Shown drv call mem (ts ++ [t]) view' := by
  refine ⟨?_, ?_⟩
  · intro i dev buf count ppos hc pre fault post he
    rcases concat_split he with ⟨_, ht, _⟩ | ⟨rest, _, split⟩
    · exact absurd hc (other i fault ht.symm dev buf count ppos)
    · rw [kept i dev buf count ppos hc]
      exact h.copied i dev buf count ppos hc pre fault rest split
  · intro i dev buf count ppos hc done away
    rw [kept i dev buf count ppos hc] at done ⊢
    exact h.uncopied i dev buf count ppos hc done fun fault hm =>
      away fault (List.mem_append_left _ hm)

/-- The copy of a read shows the bytes as they are, and it is the only one of that read. -/
theorem shown_copy (h : Shown drv call mem ts view) {r : ι} {moved : Option Fault}
    (fresh : ¬ (view r).done) (now : (view' r).done)
    (reads : ∀ dev buf count ppos, call r = .read dev buf count ppos →
      (view' r).result = globalmem_read drv (view' r).waited moved (touchAll call mem ts dev) buf
        count ppos)
    (kept : ∀ i, i ≠ r → view' i = view i) :
    Shown drv call mem (ts ++ [.copy r moved]) view' := by
  refine ⟨?_, ?_⟩
  · intro i dev buf count ppos hc pre fault post he
    rcases concat_split he with ⟨rfl, ht, _⟩ | ⟨rest, _, split⟩
    · obtain ⟨rfl, rfl⟩ := Touch.copy.inj ht
      exact ⟨now, reads dev buf count ppos hc⟩
    · have old := h.copied i dev buf count ppos hc pre fault rest split
      have hi : i ≠ r := fun hi => fresh (hi ▸ old.1)
      rw [kept i hi]
      exact old
  · intro i dev buf count ppos hc done away
    have hi : i ≠ r := by
      intro hi
      subst hi
      exact away moved (by simp)
    rw [kept i hi] at done ⊢
    exact h.uncopied i dev buf count ppos hc done fun fault hm =>
      away fault (List.mem_append_left _ hm)

/-- Each read of `d` that copied in the first history copied in the second, with the same fault
and behind the same stores to `d`. -/
def SamePlace (call call' : ι → Request δ) (d : δ) (i : ι) (ts ts' : List (Touch ι δ)) : Prop :=
  ∀ pre fault post, ts = pre ++ .copy i fault :: post →
    ∃ pre' post', ts' = pre' ++ .copy i fault :: post' ∧
      pre.filter (storesTo call d) = pre'.filter (storesTo call' d)

/-- Two histories that agree on a device show a read of it the same, if its wait came to the same
in both as far as the driver looks. -/
theorem shown_same {call' : ι → Request δ} {ts' : List (Touch ι δ)} {d : δ} {i : ι} {buf : Bytes}
    {count : UInt64} {ppos : Int64} (h : Shown drv call mem ts view)
    (h' : Shown drv call' mem ts' view') (same : SameOn d call call')
    (place : SamePlace call call' d i ts ts') (hc : call i = .read d buf count ppos)
    (done : (view i).done) (done' : (view' i).done)
    (waits : drv = .sem → (view i).waited = (view' i).waited) :
    (view i).result = (view' i).result := by
  have hc' : call' i = .read d buf count ppos := by
    rw [← same i (Or.inl (by rw [hc]; rfl)), hc]
  have wait : ∀ fault seen, globalmem_read drv (view i).waited fault seen buf count ppos =
      globalmem_read drv (view' i).waited fault seen buf count ppos := by
    intro fault seen
    by_cases hd : drv = .sem
    · rw [waits hd]
    · simp only [globalmem_read, hd, false_and, if_false]
  by_cases hcopy : ∃ fault, .copy i fault ∈ ts
  · obtain ⟨fault, hm⟩ := hcopy
    obtain ⟨pre, post, split⟩ := List.append_of_mem hm
    obtain ⟨pre', post', split', order⟩ := place pre fault post split
    have first := (h.copied i d buf count ppos hc pre fault post split).2
    have second := (h'.copied i d buf count ppos hc' pre' fault post' split').2
    rw [first, second, wait, touchAll_independent same order]
  · have away : ∀ fault, .copy i fault ∉ ts := fun fault hm => hcopy ⟨fault, hm⟩
    have result := h.uncopied i d buf count ppos hc done away
    by_cases hcopy' : ∃ fault, .copy i fault ∈ ts'
    · obtain ⟨fault, hm⟩ := hcopy'
      obtain ⟨pre', post', split'⟩ := List.append_of_mem hm
      rw [(h'.copied i d buf count ppos hc' pre' fault post' split').2, result, wait]
    · rw [h'.uncopied i d buf count ppos hc' done' (fun fault hm => hcopy' ⟨fault, hm⟩) none
        (fun _ => 0), result none (fun _ => 0), wait]

def touched {α : Type} (copies : α → Option (ι × Option Fault)) : Op α δ → Option (Touch ι δ)
  | .step a => (copies a).map fun c => .copy c.1 c.2
  | .clear dev => some (.clear dev)

/-- What the devices were touched by in the course of the operations. -/
def touches {α : Type} (copies : α → Option (ι × Option Fault)) (ops : List (Op α δ)) :
    List (Touch ι δ) :=
  ops.filterMap (touched copies)

omit [DecidableEq δ] in
theorem touches_concat {α : Type} (copies : α → Option (ι × Option Fault)) (ops : List (Op α δ))
    (op : Op α δ) : touches copies (ops ++ [op]) =
      touches copies ops ++ (touched copies op).toList := by
  rw [touches, List.filterMap_append]
  cases h : touched copies op with
  | none => rw [List.filterMap_cons_none h]; rfl
  | some t => rw [List.filterMap_cons_some h]; rfl

/-- A driver whose steps can be told by the copies they make: what a step with a copy does and
what the others leave alone. -/
structure Observed (drv : Driver) (call : ι → Request δ) (σ α : Type) where
  machine : Machine σ α
  copies : α → Option (ι × Option Fault)
  mem : σ → δ → Bytes
  clear : σ → δ → σ
  view : σ → ι → View
  Inv : σ → Prop
  inv_next : ∀ {s a}, Inv s → machine.Enabled s a → Inv (machine.next s a)
  inv_clear : ∀ {s} dev, Inv s → Inv (clear s dev)
  mem_clear : ∀ s dev, mem (clear s dev) = touch call (mem s) (.clear dev)
  view_clear : ∀ s dev, view (clear s dev) = view s
  mem_quiet : ∀ {s a}, copies a = none → mem (machine.next s a) = mem s
  mem_copy : ∀ {s a i fault}, copies a = some (i, fault) →
    mem (machine.next s a) = touch call (mem s) (.copy i fault)
  view_done : ∀ {s a i}, machine.Enabled s a → (view s i).done →
    view (machine.next s a) i = view s i
  view_other : ∀ {s a i fault}, copies a = some (i, fault) → ∀ j, j ≠ i →
    view (machine.next s a) j = view s j
  copy_fresh : ∀ {s a i fault}, machine.Enabled s a → copies a = some (i, fault) →
    ¬ (view s i).done
  view_copy : ∀ {s a i fault dev buf count ppos}, Inv s → machine.Enabled s a →
    copies a = some (i, fault) → call i = .read dev buf count ppos →
    (view (machine.next s a) i).done ∧ (view (machine.next s a) i).result =
      globalmem_read drv (view (machine.next s a) i).waited fault (mem s dev) buf count ppos
  view_ended : ∀ {s a i dev buf count ppos}, Inv s → machine.Enabled s a → copies a = none →
    call i = .read dev buf count ppos → ¬ (view s i).done → (view (machine.next s a) i).done →
    ∀ fault seen, (view (machine.next s a) i).result =
      globalmem_read drv (view (machine.next s a) i).waited fault seen buf count ppos

namespace Observed

variable {σ α : Type}

def ops (o : Observed drv call σ α) : Machine σ (Op α δ) :=
  o.machine.withClear o.clear

/-- The state tells the same as the touches so far. -/
structure Told (o : Observed drv call σ α) (mem : δ → Bytes) (ops : List (Op α δ)) (s : σ) :
    Prop where
  inv : o.Inv s
  bytes : o.mem s = touchAll call mem (touches o.copies ops)
  shown : Shown drv call mem (touches o.copies ops) (o.view s)

variable {o : Observed drv call σ α} {ops : List (Op α δ)} {s : σ}

theorem told_quiet (h : o.Told mem ops s) {a : α} (enabled : o.machine.Enabled s a)
    (silent : o.copies a = none) : o.Told mem (ops ++ [.step a]) (o.machine.next s a) := by
  have same : touches o.copies (ops ++ [.step a]) = touches o.copies ops := by
    rw [touches_concat, touched, silent, Option.map_none]
    exact List.append_nil _
  refine ⟨o.inv_next h.inv enabled, ?_, ?_⟩
  · rw [same, o.mem_quiet silent, h.bytes]
  · rw [same]
    exact shown_quiet h.shown (fun _ _ _ _ _ _ done => o.view_done enabled done)
      fun _ _ _ _ _ hc before done => o.view_ended h.inv enabled silent hc before done

theorem told_copy (h : o.Told mem ops s) {a : α} {i : ι} {fault : Option Fault}
    (enabled : o.machine.Enabled s a) (copy : o.copies a = some (i, fault)) :
    o.Told mem (ops ++ [.step a]) (o.machine.next s a) := by
  have longer : touches o.copies (ops ++ [.step a]) = touches o.copies ops ++ [.copy i fault] := by
    rw [touches_concat, touched, copy]
    rfl
  refine ⟨o.inv_next h.inv enabled, ?_, ?_⟩
  · rw [longer, touchAll_concat, ← h.bytes, o.mem_copy copy]
  · rw [longer]
    cases hc : call i with
    | read dev buf count ppos =>
      refine shown_copy h.shown (o.copy_fresh enabled copy)
        (o.view_copy h.inv enabled copy hc).1 ?_ (o.view_other copy)
      intro dev' buf' count' ppos' hc'
      rw [← h.bytes]
      exact (o.view_copy h.inv enabled copy hc').2
    | write dev buf count ppos =>
      have writes : ∀ j dev' buf' count' ppos', call j = .read dev' buf' count' ppos' → j ≠ i := by
        intro j dev' buf' count' ppos' hj same
        rw [same, hc] at hj
        cases hj
      refine shown_touch h.shown ?_ fun j _ _ _ _ hj => o.view_other copy j (writes j _ _ _ _ hj)
      intro j fault' hj dev' buf' count' ppos' hr
      cases hj
      exact writes i _ _ _ _ hr rfl

theorem told_clear (h : o.Told mem ops s) (dev : δ) :
    o.Told mem (ops ++ [.clear dev]) (o.clear s dev) := by
  have longer : touches o.copies (ops ++ [.clear dev]) = touches o.copies ops ++ [.clear dev] :=
    touches_concat o.copies ops (.clear dev)
  refine ⟨o.inv_clear dev h.inv, ?_, ?_⟩
  · rw [longer, touchAll_concat, ← h.bytes, o.mem_clear]
  · rw [longer, o.view_clear]
    exact shown_touch h.shown (fun i fault ht => by cases ht) fun _ _ _ _ _ _ => rfl

theorem told_run {initial : σ} (start : o.Told mem [] initial)
    (h : Run o.ops initial ops s) : o.Told mem ops s := by
  induction h with
  | start => exact start
  | @next ops s op _ enabled ih =>
    cases op with
    | clear dev => exact told_clear ih dev
    | step a =>
      cases copy : o.copies a with
      | none => exact told_quiet ih enabled copy
      | some c => exact told_copy ih enabled copy

end Observed

end

end DeviceDriverEx
