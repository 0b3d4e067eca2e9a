import DeviceDriverEx.GlobalmemSerial

namespace DeviceDriverEx.Rwsem

section
variable {ι δ : Type} [DecidableEq ι] [DecidableEq δ]

/-- One byte of a write. Nobody else is inside, and no clear of the device has begun. -/
theorem follows_store {call : ι → Op δ} {mem : δ → Bytes} {order : List ι} {s : State ι δ} {i : ι}
    {dev : δ} {buf : Bytes} {count : UInt64} {ppos : Int64} (h : Follows call mem order s)
    (hc : call i = .write dev buf count ppos) (enabled : Enabled call s (.byte i)) :
    Follows call mem order (next call s (.byte i)) := by
  obtain ⟨hi, room⟩ := enabled
  have mode : (call i).mode = some .write := by rw [hc]; rfl
  have locks : (call i).mode ≠ none := by rw [mode]; exact Option.some_ne_none _
  have held : (s.frame i).pc.held = true := by rw [hi]; rfl
  have busy : Busy call s dev := ⟨i, by rw [hc]; rfl, locks, held⟩
  have before : (s.frame i).pc.ended = false := by rw [hi]; rfl
  obtain ⟨hp, _, hb, stored⟩ : Progress s.mem (serialMem call mem order) (s.frame i)
    (.write dev buf count ppos) := hc ▸ h.progress i before
  let k := (s.frame i).moved
  let cell := ppos.toUInt64.toNat + k
  let fr : Frame := { s.frame i with moved := k + 1 }
  have hnext : next call s (.byte i) = { s.setFrame i fr with
      mem := Function.update s.mem dev (Function.update (s.mem dev) cell (buf k)) } := by
    simp only [next, hc, Op.move, fr, cell, k]
  have lock := lockInv_next h.lock (a := .byte i) ⟨hi, room⟩ trivial
  rw [hnext] at lock ⊢
  have own : (s.setFrame i fr).frame i = fr := setFrame_self s i fr
  have others : ∀ j ≠ i, (s.setFrame i fr).frame j = s.frame j :=
    fun j hj => setFrame_of_ne s hj fr
  have elsewhere : ∀ d ≠ dev, Function.update s.mem dev
      (Function.update (s.mem dev) cell (buf k)) d = s.mem d :=
    fun d hd => Function.update_of_ne hd ..
  have unlocked : ∀ j, (call j).mode = none → j ≠ i := by
    rintro j hm rfl
    exact locks hm
  obtain ⟨committed, results⟩ := results_kept (t := { s.setFrame i fr with
    mem := Function.update s.mem dev (Function.update (s.mem dev) cell (buf k)) }) h others before
    (show ((s.setFrame i fr).frame i).pc.ended = false by rw [own]; exact before)
  refine ⟨lock, ?_, ?_, ?_, committed, h.nodup, results⟩
  · intro d busy half
    obtain ⟨j, hd, inside⟩ := busy
    obtain ⟨c, hcl, moved⟩ := half
    simp only [Clearing, others c (unlocked c hcl.1)] at hcl moved
    refine h.apart d ⟨j, hd, ?_⟩ ⟨c, hcl, moved⟩
    by_cases hj : j = i
    · rw [hj]
      exact ⟨locks, held⟩
    · simpa only [others j hj] using inside
  · intro j hended
    by_cases hj : j = i
    · subst hj
      simp only [hc, own]
      refine ⟨hp, fun hn => absurd hi hn, hb, fun _ => ?_⟩
      rw [Function.update_self, stored hi, copyBytes_succ, Nat.zero_add]
    · simp only [others j hj] at hended ⊢
      have old := h.progress j hended
      refine progress_other old ?_
      by_cases hd : (call j).dev = dev
      · refine Or.inr ⟨fun hl hcopy => ?_, fun hm x hx => ?_⟩
        · exact hj (h.lock.alone mode held ⟨hl, by rw [hcopy]; rfl⟩)
        · have hcopy : (s.frame j).pc = .copy := by
            rcases (h.lock j).unlocked hm with hcopy | hr
            · exact hcopy
            · rw [hr] at hended
              cases hended
          exact absurd ⟨j, ⟨hm, hd, hcopy⟩, by omega⟩ (h.apart dev busy)
      · exact Or.inl ⟨elsewhere _ hd, rfl⟩
  · intro d idle x
    have hd : d ≠ dev := by
      rintro rfl
      exact idle i ⟨mode, by rw [hc]; rfl, by simp only [own]; exact hi⟩
    have idle' : ∀ j, ¬ Storing call s d j := by
      intro j hst
      refine idle j ⟨hst.1, hst.2.1, ?_⟩
      by_cases hj : j = i
      · subst hj
        simp only [own]
        exact hi
      · simp only [others j hj]
        exact hst.2.2
    simp only [elsewhere d hd]
    rcases h.calm d idle' x with agree | ⟨j, hcl, hx⟩
    · exact Or.inl agree
    · exact Or.inr ⟨j, by simpa only [Clearing, others j (unlocked j hcl.1)] using hcl,
        by simpa only [others j (unlocked j hcl.1)] using hx⟩

/-- One byte of a clear, made while nobody is inside on its device. -/
theorem follows_clear {call : ι → Op δ} {mem : δ → Bytes} {order : List ι} {s : State ι δ} {i : ι}
    {dev : δ} (h : Follows call mem order s) (hc : call i = .clear dev)
    (enabled : Enabled call s (.byte i)) (quiet : ¬ Busy call s dev) :
    Follows call mem order (next call s (.byte i)) := by
  obtain ⟨hi, room⟩ := enabled
  have mode : (call i).mode = none := by rw [hc]; rfl
  have hdev : (call i).dev = dev := by rw [hc]; rfl
  have before : (s.frame i).pc.ended = false := by rw [hi]; rfl
  obtain ⟨hp, hb, cleared⟩ : Progress s.mem (serialMem call mem order) (s.frame i) (.clear dev) :=
    hc ▸ h.progress i before
  let k := (s.frame i).moved
  let fr : Frame := { s.frame i with moved := k + 1 }
  let mem' := Function.update s.mem dev (Function.update (s.mem dev) k 0)
  have hnext : next call s (.byte i) = { s.setFrame i fr with mem := mem' } := by
    simp only [next, hc, Op.move, fr, mem', k]
  have lock := lockInv_next h.lock (a := .byte i) ⟨hi, room⟩ trivial
  rw [hnext] at lock ⊢
  have own : (s.setFrame i fr).frame i = fr := setFrame_self s i fr
  have others : ∀ j ≠ i, (s.setFrame i fr).frame j = s.frame j :=
    fun j hj => setFrame_of_ne s hj fr
  have elsewhere : ∀ d ≠ dev, mem' d = s.mem d := fun d hd => Function.update_of_ne hd ..
  have cell : mem' dev k = 0 := by simp only [mem', Function.update_self]
  have apart_cell : ∀ x ≠ k, mem' dev x = s.mem dev x := by
    intro x hx
    simp only [mem', Function.update_self, Function.update_of_ne hx]
  have locked : ∀ j, (call j).mode ≠ none → j ≠ i := by
    rintro j hl rfl
    exact hl mode
  have outside : ∀ d, Busy call { s.setFrame i fr with mem := mem' } d → Busy call s d := by
    intro d busy
    obtain ⟨j, hd, inside⟩ := busy
    exact ⟨j, hd, by simpa only [others j (locked j inside.1)] using inside⟩
  -- a clear that was under way still is, and has come no less far
  have underway : ∀ d j x, Clearing call s d j → x < (s.frame j).moved →
      Clearing call { s.setFrame i fr with mem := mem' } d j ∧
        x < ((s.setFrame i fr).frame j).moved := by
    intro d j x hcl hx
    by_cases hj : j = i
    · subst hj
      simp only [Clearing, own]
      exact ⟨⟨mode, hcl.2.1, hi⟩, Nat.lt_succ_of_lt hx⟩
    · simp only [Clearing, others j hj]
      exact ⟨hcl, hx⟩
  obtain ⟨committed, results⟩ := results_kept (t := { s.setFrame i fr with mem := mem' }) h others
    before (show ((s.setFrame i fr).frame i).pc.ended = false by rw [own]; exact before)
  refine ⟨lock, ?_, ?_, ?_, committed, h.nodup, results⟩
  · intro d busy half
    obtain ⟨c, hcl, moved⟩ := half
    have busy' := outside d busy
    by_cases hci : c = i
    · subst hci
      have hd : dev = d := hdev.symm.trans hcl.2.1
      exact quiet (hd ▸ busy')
    · simp only [Clearing, others c hci] at hcl moved
      exact h.apart d busy' ⟨c, hcl, moved⟩
  · intro j hended
    by_cases hj : j = i
    · subst hj
      simp only [hc, own]
      refine ⟨hp, hb, fun x hx => ?_⟩
      by_cases hxk : x = k
      · rw [hxk]
        exact cell
      · have lt : x < k := by
          change x < k + 1 at hx
          omega
        exact (apart_cell x hxk).trans (cleared x lt)
    · simp only [others j hj] at hended ⊢
      have old := h.progress j hended
      by_cases hd : (call j).dev = dev
      · refine progress_other old (Or.inr ⟨fun hl hcopy => ?_, fun _ x _ => ?_⟩)
        · exact quiet ⟨j, hd, hl, by rw [hcopy]; rfl⟩
        · rw [hd]
          by_cases hxk : x = k
          · rw [hxk]
            exact Or.inr cell
          · exact Or.inl (apart_cell x hxk)
      · exact progress_other old (Or.inl ⟨elsewhere _ hd, rfl⟩)
  · intro d idle x
    have idle' : ∀ j, ¬ Storing call s d j := by
      intro j hst
      have hj := locked j (by rw [hst.1]; exact Option.some_ne_none _)
      exact idle j (by simpa only [Storing, others j hj] using hst)
    by_cases hd : d = dev ∧ x = k
    · obtain ⟨rfl, rfl⟩ := hd
      refine Or.inr ⟨i, ?_⟩
      simp only [Clearing, own]
      exact ⟨⟨mode, hdev, hi⟩, Nat.lt_succ_self k⟩
    · have same : mem' d x = s.mem d x := by
        by_cases hdd : d = dev
        · subst hdd
          exact apart_cell x fun hx => hd ⟨rfl, hx⟩
        · rw [elsewhere d hdd]
      rcases h.calm d idle' x with agree | ⟨j, hcl, hx⟩
      · exact Or.inl (same.trans agree)
      · exact Or.inr ⟨j, underway d j x hcl hx⟩

omit [DecidableEq ι] [DecidableEq δ] in
theorem finish_ended (op : Op δ) (fr : Frame) :
    (op.finish fr).pc.ended = true ∧ (op.finish fr).pc ≠ .copy ∧ (op.finish fr).moved = fr.moved := by
  cases op <;> exact ⟨rfl, (by intro hp; cases hp), rfl⟩

/-- The end of a copy or a clear, given how the serial execution's memory meets the real one. -/
theorem follows_finish {call : ι → Op δ} {mem : δ → Bytes} {order : List ι} {s : State ι δ} {i : ι}
    (h : Follows call mem order s) (enabled : Enabled call s (.finish i))
    (result : ((call i).exec (serialMem call mem order)).1 = ((call i).finish (s.frame i)).result)
    (elsewhere : ∀ d ≠ (call i).dev, serialMem call mem (order ++ [i]) d = serialMem call mem order d)
    (quiet : serialMem call mem (order ++ [i]) = serialMem call mem order ∨
      ∀ j ≠ i, (call j).dev = (call i).dev → ¬ Inside (call j) (s.frame j))
    (settled : (∀ j ≠ i, ¬ Storing call s (call i).dev j) →
      ∀ x, s.mem (call i).dev x = serialMem call mem (order ++ [i]) (call i).dev x ∨
        ∃ j ≠ i, Clearing call s (call i).dev j ∧ x < (s.frame j).moved) :
    Follows call mem (order ++ [i]) (next call s (.finish i)) := by
  obtain ⟨hi, done⟩ := enabled
  have before : (s.frame i).pc.ended = false := by rw [hi]; rfl
  obtain ⟨ended, moved_on, _⟩ := finish_ended (call i) (s.frame i)
  have lock := lockInv_next h.lock (a := .finish i) ⟨hi, done⟩ trivial
  have own : (next call s (.finish i)).frame i = (call i).finish (s.frame i) :=
    Function.update_self ..
  have others : ∀ j ≠ i, (next call s (.finish i)).frame j = s.frame j :=
    fun j hj => Function.update_of_ne hj ..
  have clearing : ∀ d j, Clearing call (next call s (.finish i)) d j ↔
      j ≠ i ∧ Clearing call s d j := by
    intro d j
    by_cases hj : j = i
    · subst hj
      simp only [Clearing, own]
      exact ⟨fun hcl => absurd hcl.2.2 moved_on, fun hcl => absurd rfl hcl.1⟩
    · simp only [Clearing, others j hj]
      exact ⟨fun hcl => ⟨hj, hcl⟩, fun hcl => hcl.2⟩
  have storing : ∀ d j, j ≠ i → Storing call s d j → Storing call (next call s (.finish i)) d j := by
    intro d j hj hst
    simpa only [Storing, others j hj] using hst
  obtain ⟨committed, nodup, results⟩ := results_commit h others before (by rw [own]; exact ended)
    (by rw [own]; exact result)
  refine ⟨lock, ?_, ?_, ?_, committed, nodup, results⟩
  · intro d busy half
    obtain ⟨j, hd, inside⟩ := busy
    obtain ⟨c, hcl, moved⟩ := half
    obtain ⟨hci, hcl⟩ := (clearing d c).mp hcl
    rw [others c hci] at moved
    refine h.apart d ⟨j, hd, inside.1, ?_⟩ ⟨c, hcl, moved⟩
    by_cases hj : j = i
    · rw [hj, hi]
      rfl
    · rw [← others j hj]
      exact inside.2
  · intro j hended
    have hj : j ≠ i := by
      rintro rfl
      rw [own, ended] at hended
      cases hended
    rw [others j hj] at hended ⊢
    refine progress_other (h.progress j hended) ?_
    rcases quiet with same | outside
    · exact Or.inl ⟨rfl, by rw [same]⟩
    · by_cases hd : (call j).dev = (call i).dev
      · refine Or.inr ⟨fun hl hcopy => ?_, fun _ _ _ => Or.inl rfl⟩
        exact outside j hj hd ⟨hl, by rw [hcopy]; rfl⟩
      · exact Or.inl ⟨rfl, elsewhere _ hd⟩
  · intro d idle x
    by_cases hd : d = (call i).dev
    · subst hd
      rcases settled (fun j hj hst => idle j (storing _ j hj hst)) x with agree | ⟨j, hj, hcl, hx⟩
      · exact Or.inl agree
      · exact Or.inr ⟨j, (clearing _ j).mpr ⟨hj, hcl⟩, by rw [others j hj]; exact hx⟩
    · have idle' : ∀ j, ¬ Storing call s d j := by
        intro j hst
        by_cases hj : j = i
        · subst hj
          exact hd hst.2.1.symm
        · exact idle j (storing d j hj hst)
      rw [elsewhere d hd]
      rcases h.calm d idle' x with agree | ⟨j, hcl, hx⟩
      · exact Or.inl agree
      · have hj : j ≠ i := by
          rintro rfl
          exact hd hcl.2.1.symm
        exact Or.inr ⟨j, (clearing d j).mpr ⟨hj, hcl⟩, by rw [others j hj]; exact hx⟩

theorem follows_finish_read {call : ι → Op δ} {mem : δ → Bytes} {order : List ι} {s : State ι δ}
    {i : ι} {dev : δ} {buf : Bytes} {count : UInt64} {ppos : Int64}
    (h : Follows call mem order s) (hc : call i = .read dev buf count ppos)
    (inside : ppos.toUInt64 < GLOBALMEM_SIZE) (enabled : Enabled call s (.finish i)) :
    Follows call mem (order ++ [i]) (next call s (.finish i)) := by
  obtain ⟨hi, done⟩ := enabled
  have hdev : (call i).dev = dev := by rw [hc]; rfl
  have mode : (call i).mode = some .read := by rw [hc]; rfl
  have mine : Inside (call i) (s.frame i) := ⟨by rw [mode]; exact Option.some_ne_none _, by rw [hi]; rfl⟩
  have idle := h.lock.no_store mine (d := dev) fun hst => by cases mode.symm.trans hst.1
  have agree := h.agrees ⟨i, hdev, mine⟩ idle
  obtain ⟨_, _, hb⟩ : Progress s.mem (serialMem call mem order) (s.frame i)
    (.read dev buf count ppos) := hc ▸ h.progress i (not_ended_of_held (Or.inr hi))
  have same : serialMem call mem (order ++ [i]) = serialMem call mem order := by
    rw [serialMem_append, hc, exec_read inside]
  refine follows_finish h ⟨hi, done⟩ ?_ (fun d _ => by rw [same]) (Or.inl same) ?_
  · rw [hc] at done ⊢
    rw [exec_read inside, Op.finish, Frame.result, hb, done, agree]
    rfl
  · intro _ x
    rw [hdev, same, agree]
    exact Or.inl rfl

theorem follows_finish_write {call : ι → Op δ} {mem : δ → Bytes} {order : List ι} {s : State ι δ}
    {i : ι} {dev : δ} {buf : Bytes} {count : UInt64} {ppos : Int64}
    (h : Follows call mem order s) (hc : call i = .write dev buf count ppos)
    (inside : ppos.toUInt64 < GLOBALMEM_SIZE) (enabled : Enabled call s (.finish i)) :
    Follows call mem (order ++ [i]) (next call s (.finish i)) := by
  obtain ⟨hi, done⟩ := enabled
  have hdev : (call i).dev = dev := by rw [hc]; rfl
  have mode : (call i).mode = some .write := by rw [hc]; rfl
  obtain ⟨_, _, hb, stored⟩ : Progress s.mem (serialMem call mem order) (s.frame i)
    (.write dev buf count ppos) := hc ▸ h.progress i (not_ended_of_held (Or.inr hi))
  have after := serialMem_append call mem order i
  rw [hc, exec_write inside] at after
  dsimp only at after
  refine follows_finish h ⟨hi, done⟩ ?_ (fun d hd => ?_) (Or.inr fun j hj _ inside_j => ?_) ?_
  · rw [hc, exec_write inside, Op.finish, Frame.result, hb]
  · rw [after, Function.update_of_ne (hdev ▸ hd)]
  · exact hj (h.lock.alone mode (by rw [hi]; rfl) inside_j)
  · intro _ x
    rw [hc] at done
    rw [hdev, after, Function.update_self, stored hi, done]
    exact Or.inl rfl

theorem follows_finish_clear {call : ι → Op δ} {mem : δ → Bytes} {order : List ι} {s : State ι δ}
    {i : ι} {dev : δ} (h : Follows call mem order s) (hc : call i = .clear dev)
    (enabled : Enabled call s (.finish i)) :
    Follows call mem (order ++ [i]) (next call s (.finish i)) := by
  obtain ⟨hi, done⟩ := enabled
  have hdev : (call i).dev = dev := by rw [hc]; rfl
  have mode : (call i).mode = none := by rw [hc]; rfl
  have all : (s.frame i).moved = GLOBALMEM_SIZE.toNat := by rw [done, hc]; rfl
  obtain ⟨hp, hb, cleared⟩ : Progress s.mem (serialMem call mem order) (s.frame i) (.clear dev) :=
    hc ▸ h.progress i (not_ended_of_held (Or.inr hi))
  have half : HalfCleared call s dev := ⟨i, ⟨mode, hdev, hi⟩, by rw [all]; decide⟩
  have after := serialMem_append call mem order i
  rw [hc, exec_clear] at after
  dsimp only at after
  refine follows_finish h ⟨hi, done⟩ ?_ (fun d hd => ?_) (Or.inr fun j _ hd inside_j => ?_) ?_
  · rw [hc, exec_clear, Op.finish, Frame.result, hp, hb]
  · rw [after, Function.update_of_ne (hdev ▸ hd)]
  · exact h.apart dev ⟨j, hd.trans hdev, inside_j⟩ half
  · intro idle x
    rw [hdev] at idle ⊢
    rw [after, Function.update_self]
    unfold memset
    split
    next hx =>
      rw [← all] at hx
      exact Or.inl (cleared x hx)
    next hx =>
      have idle' : ∀ j, ¬ Storing call s dev j := by
        intro j hst
        by_cases hj : j = i
        · rw [hj] at hst
          cases mode.symm.trans hst.1
        · exact idle j hj hst
      rcases h.calm dev idle' x with agree | ⟨j, hcl, hxj⟩
      · exact Or.inl agree
      · have bound := (h.lock j).bounded
        rw [Op.length_of_unlocked hcl.1] at bound
        exact absurd (Nat.lt_of_lt_of_le hxj bound) hx

omit [DecidableEq ι] [DecidableEq δ] in
theorem progress_pc {op : Op δ} {mem abs : δ → Bytes} {fr : Frame} {pc : Pc}
    (h : Progress mem abs fr op) (still : fr.pc ≠ .copy)
    (agree : pc = .copy → op.mode = some .write → mem op.dev = abs op.dev) :
    Progress mem abs { fr with pc := pc } op := by
  cases op with
  | read dev buf count ppos =>
    obtain ⟨hp, idle, hb⟩ := h
    exact ⟨hp, fun _ => idle still, hb⟩
  | write dev buf count ppos =>
    obtain ⟨hp, idle, hb, _⟩ := h
    refine ⟨hp, fun _ => idle still, hb, fun hcopy => ?_⟩
    have same : mem dev = abs dev := agree hcopy rfl
    rw [show ({ fr with pc := pc } : Frame).moved = 0 from idle still, copyBytes_zero, same]
  | clear dev => exact h

/-- The place in the serial order is taken where the copy is complete. -/
def Act.commit : Act ι → List ι
  | .finish i => [i]
  | _ => []

theorem follows_next {call : ι → Op δ} {mem : δ → Bytes} {order : List ι} {s : State ι δ}
    {a : Act ι} (inside : ∀ i, (call i).ppos.toUInt64 < GLOBALMEM_SIZE)
    (h : Follows call mem order s) (enabled : Enabled call s a) (ok : ClearsApart call s a)
    (intact : ∀ i pads, a ≠ .fault i pads) : Follows call mem (order ++ a.commit) (next call s a) := by
  have posInside : PosInside call s a := by
    cases a with
    | check i => exact inside i
    | _ => trivial
  have lock := lockInv_next h.lock enabled posInside
  have locks : ∀ i, (s.frame i).pc ≠ .copy → (s.frame i).pc ≠ .returned → (call i).mode ≠ none := by
    intro i away going
    obtain ⟨m, hm⟩ := (h.lock i).locks away going
    rw [hm]
    exact Option.some_ne_none m
  cases a with
  | fault i pads => exact absurd rfl (intact i pads)
  | down i =>
    have hi : (s.frame i).pc = .down := enabled.1
    simp only [Act.commit, List.append_nil]
    refine follows_frame h (locks i (by rw [hi]; decide) (by rw [hi]; decide)) lock (fun _ => ok)
      (fun hp => ?_) (by rw [hi]; rfl) (fun hp => ?_) (fun _ => ?_)
    · rw [hi] at hp
      cases hp
    · cases hp
    · exact progress_pc (h.progress i (by rw [hi]; rfl)) (by rw [hi]; decide) (by intro hp; cases hp)
  | check i =>
    have hi : (s.frame i).pc = .check := enabled
    have mode := locks i (by rw [hi]; decide) (by rw [hi]; decide)
    have mine : Inside (call i) (s.frame i) := ⟨mode, by rw [hi]; rfl⟩
    have hnext : next call s (.check i) = s.setFrame i { s.frame i with pc := .copy } :=
      if_neg (UInt64.not_le.mpr (inside i))
    simp only [Act.commit, List.append_nil]
    rw [hnext] at lock ⊢
    refine follows_frame (l := s.rwsem) h mode lock (fun _ => h.apart _ ⟨i, rfl, mine⟩)
      (fun _ => rfl) (by rw [hi]; rfl) (fun hp => ?_) (fun _ => ?_)
    · cases hp
    · refine progress_pc (h.progress i (by rw [hi]; rfl)) (by rw [hi]; decide) fun _ _ => ?_
      exact h.agrees ⟨i, rfl, mine⟩ (h.lock.no_store mine fun hst => by
        cases hi.symm.trans hst.2.2)
  | byte i =>
    simp only [Act.commit, List.append_nil]
    cases hc : call i with
    | write dev buf count ppos => exact follows_store h hc enabled
    | clear dev =>
      have quiet := ok (by rw [hc]; rfl)
      rw [hc] at quiet
      exact follows_clear h hc enabled quiet
    | read dev buf count ppos =>
      have hi : (s.frame i).pc = .copy := enabled.1
      have mode : (call i).mode ≠ none := by rw [hc]; exact Option.some_ne_none _
      obtain ⟨hp, _, hb⟩ : Progress s.mem (serialMem call mem order) (s.frame i)
        (.read dev buf count ppos) := hc ▸ h.progress i (not_ended_of_held (Or.inr hi))
      let fr : Frame := { s.frame i with
        moved := (s.frame i).moved + 1
        buf := Function.update (s.frame i).buf (s.frame i).moved
          (s.mem dev (ppos.toUInt64.toNat + (s.frame i).moved)) }
      have hnext : next call s (.byte i) = s.setFrame i fr := by
        simp only [next, hc, Op.move, fr]
        rfl
      rw [hnext] at lock ⊢
      have mine : Inside (call i) (s.frame i) := ⟨mode, by rw [hi]; rfl⟩
      refine follows_frame (l := s.rwsem) h mode lock (fun _ => h.apart _ ⟨i, rfl, mine⟩)
        (fun _ => hi) rfl (fun hend => ?_) (fun _ => ?_)
      · rw [show fr.pc = .copy from hi] at hend
        cases hend
      · rw [hc]
        refine ⟨hp, fun hn => absurd hi hn, ?_⟩
        rw [copyBytes_succ, Nat.zero_add, ← hb]
  | finish i =>
    have pos := inside i
    cases hc : call i with
    | read dev buf count ppos =>
      rw [hc] at pos
      exact follows_finish_read h hc pos enabled
    | write dev buf count ppos =>
      rw [hc] at pos
      exact follows_finish_write h hc pos enabled
    | clear dev => exact follows_finish_clear h hc enabled
  | up i =>
    have hi : (s.frame i).pc = .up := enabled
    simp only [Act.commit, List.append_nil]
    refine follows_frame h (locks i (by rw [hi]; decide) (by rw [hi]; decide)) lock (fun hin => ?_)
      (fun hp => ?_) (by rw [hi]; rfl) (fun _ => rfl) (fun hp => ?_)
    · cases hin.2
    · rw [hi] at hp
      cases hp
    · cases hp

end

end DeviceDriverEx.Rwsem
