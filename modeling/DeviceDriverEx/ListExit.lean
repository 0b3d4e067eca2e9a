import DeviceDriverEx.ListHead

namespace DeviceDriverEx.List7

/-- The variables of the loop of `list_exit`: the node at hand and its successor `p`, read before
the node goes. -/
structure Deletion (ν : Type) where
  nodes : Nodes ν
  node : ν
  p : ν
  freed : List ν

section
variable {ν : Type} [DecidableEq ν]

omit [DecidableEq ν] in
/-- `node = list->next, p = node->next` -/
def exit_begin (h : Nodes ν) (list : ν) : Option (Deletion ν) := do
  let node ← h.next list
  let p ← h.next node
  some ⟨h, node, p, []⟩

/-- `list_del(&tmp->list); kfree(tmp);` and then `node = p, p = node->next`. -/
def exit_body (s : Deletion ν) : Option (Deletion ν) := do
  let h ← s.nodes.list_del s.node
  let h ← h.kfree s.node
  let p ← h.next s.p
  some ⟨h, s.p, p, s.freed ++ [s.node]⟩

def exit_loop (list : ν) : Nat → Deletion ν → Option (Deletion ν)
  | 0, _ => none
  | fuel + 1, s => if s.node = list then some s else do
    let s ← exit_body s
    exit_loop list fuel s

/-- So many passes of the body. -/
def passes : Nat → Deletion ν → Option (Deletion ν)
  | 0, s => some s
  | k + 1, s => do
    let s ← exit_body s
    passes k s

/-- What is left, what was freed, and whether the list is reported empty. -/
def list_exit (h : Nodes ν) (list : ν) (fuel : Nat) : Option (Deletion ν × Bool) := do
  let s ← exit_begin h list
  let s ← exit_loop list fuel s
  let empty ← s.nodes.list_empty list
  some (s, empty)

/-- In front of a pass: the elements `todo` are still on the list, those freed are out of memory. -/
structure Deleting (list : ν) (todo : List ν) (s : Deletion ν) : Prop where
  ring : Ring s.nodes list todo
  node : s.node = todo.headD list
  p : s.nodes.next s.node = some s.p
  gone : ∀ x ∈ s.freed, s.nodes x = none

variable {h : Nodes ν} {list x : ν} {todo : List ν} {s : Deletion ν}

omit [DecidableEq ν] in
theorem next_head (ring : Ring h list todo) : h.next list = some (todo.headD list) := by
  cases todo with
  | nil => exact ring.linked.1
  | cons x xs => exact ring.linked.1.1

omit [DecidableEq ν] in
/-- Whichever node comes first, it has a successor. -/
theorem next_first (ring : Ring h list todo) : ∃ p, h.next (todo.headD list) = some p := by
  cases todo with
  | nil => exact ⟨list, ring.linked.1⟩
  | cons x xs =>
    obtain ⟨_, path⟩ := ring.linked
    cases xs with
    | nil => exact ⟨list, path.1⟩
    | cons y ys => exact ⟨y, path.1.1⟩

omit [DecidableEq ν] in
theorem exit_begin_spec (ring : Ring h list todo) :
    ∃ s, exit_begin h list = some s ∧ Deleting list todo s ∧ s.freed = [] := by
  obtain ⟨p, hp⟩ := next_first ring
  refine ⟨⟨h, todo.headD list, p, []⟩, ?_, ⟨ring, rfl, hp, fun x hx => by cases hx⟩, rfl⟩
  simp only [exit_begin, next_head ring, hp, Option.bind_eq_bind, Option.bind_some]

omit [DecidableEq ν] in
theorem next_element (ring : Ring h list (x :: todo)) : h.next x = some (todo.headD list) := by
  obtain ⟨_, path⟩ := ring.linked
  cases todo with
  | nil => exact path.1
  | cons y ys => exact path.1.1

/-- One pass frees the node at hand and comes to its successor by the link read before. -/
theorem exit_body_spec (inv : Deleting list (x :: todo) s) :
    ∃ t, exit_body s = some t ∧ Deleting list todo t ∧ t.freed = s.freed ++ [x] := by
  have node : s.node = x := inv.node
  have successor := next_element inv.ring
  have p : s.p = todo.headD list := by
    have read := inv.p
    rw [node, successor] at read
    exact (Option.some.inj read).symm
  have away : x ∉ list :: todo := by
    obtain ⟨outside, rest⟩ := List.nodup_cons.mp inv.ring.nodup
    intro member
    rcases List.mem_cons.mp member with rfl | later
    · exact outside List.mem_cons_self
    · exact (List.nodup_cons.mp rest).1 later
  obtain ⟨h₁, del, ring₁, here⟩ := @Ring.del ν s.nodes x list [] todo _ inv.ring
  obtain ⟨h₂, free, ring₂, gone, others⟩ :=
    ring₁.kfree away (mt (here x).mp (here_of_next successor))
  rw [List.nil_append] at ring₂
  obtain ⟨p', hp'⟩ := next_first ring₂
  refine ⟨⟨h₂, s.p, p', s.freed ++ [x]⟩, ?_, ⟨ring₂, p, by rw [p]; exact hp', fun y hy => ?_⟩, rfl⟩
  · rw [← p] at hp'
    simp only [exit_body, node, del, free, hp', Option.bind_eq_bind, Option.bind_some]
  · by_cases hyx : y = x
    · rw [hyx]
      exact gone
    · rcases List.mem_append.mp hy with earlier | last
      · exact (others y hyx).trans ((here y).mpr (inv.gone y earlier))
      · exact absurd (List.mem_singleton.mp last) hyx

theorem passes_spec {k : Nat} (inv : Deleting list todo s) (le : k ≤ todo.length) :
    ∃ t, passes k s = some t ∧ Deleting list (todo.drop k) t ∧
      t.freed = s.freed ++ todo.take k := by
  induction k generalizing todo s with
  | zero => exact ⟨s, rfl, inv, (List.append_nil _).symm⟩
  | succ k ih =>
    cases todo with
    | nil => cases le
    | cons x todo =>
      obtain ⟨t, pass, inv', freed⟩ := exit_body_spec inv
      obtain ⟨u, rest, last, all⟩ := ih inv' (Nat.le_of_succ_le_succ le)
      refine ⟨u, ?_, last, ?_⟩
      · simp only [passes, pass, rest, Option.bind_eq_bind, Option.bind_some]
      · rw [all, freed, List.append_assoc, List.singleton_append, List.take_succ_cons]

omit [DecidableEq ν] in
theorem Deleting.node_iff (inv : Deleting list todo s) : s.node = list ↔ todo = [] := by
  rw [inv.node]
  cases todo with
  | nil => exact iff_of_true rfl rfl
  | cons x xs =>
    refine iff_of_false (fun same => ?_) (List.cons_ne_nil x xs)
    have first : x = list := same
    exact (List.nodup_cons.mp inv.ring.nodup).1 (first ▸ List.mem_cons_self)

/-- The loop ends behind the last element. -/
theorem exit_loop_eq {fuel : Nat} (inv : Deleting list todo s) (enough : todo.length < fuel) :
    exit_loop list fuel s = passes todo.length s := by
  induction todo generalizing s fuel with
  | nil =>
    obtain ⟨fuel, rfl⟩ : ∃ n, fuel = n + 1 := ⟨fuel - 1, by rw [List.length_nil] at enough; omega⟩
    exact if_pos (inv.node_iff.mpr rfl)
  | cons x todo ih =>
    obtain ⟨fuel, rfl⟩ : ∃ n, fuel = n + 1 := ⟨fuel - 1, by omega⟩
    have more : s.node ≠ list := fun done => List.cons_ne_nil x todo (inv.node_iff.mp done)
    obtain ⟨t, pass, inv', _⟩ := exit_body_spec inv
    rw [List.length_cons] at enough ⊢
    have rest := @ih t fuel inv' (by omega)
    simp only [exit_loop, if_neg more, passes, pass, rest, Option.bind_eq_bind, Option.bind_some]

end

/-- On any well-formed list the loop ends after one pass for each element, and `list_exit` reports
the list empty. Each pass frees the next element in the order of the list, of which every one is
freed once, and leaves a well-formed list of the others; no link is read or written, and nothing
freed, that is not in memory. -/
theorem list_exit_empties {ν : Type} [DecidableEq ν] {h : Nodes ν} {list : ν} {elems : List ν}
    (ring : Ring h list elems) :
    ∃ s₀, exit_begin h list = some s₀ ∧
      (∀ k ≤ elems.length, ∃ s, passes k s₀ = some s ∧ Ring s.nodes list (elems.drop k) ∧
        s.freed = elems.take k ∧ (∀ x ∈ s.freed, s.nodes x = none) ∧
          (s.node = list ↔ k = elems.length)) ∧
      ∃ s, passes elems.length s₀ = some s ∧ s.freed = elems ∧ s.freed.Nodup ∧
        ∀ fuel, elems.length < fuel → list_exit h list fuel = some (s, true) := by
  obtain ⟨s₀, start, inv, none_freed⟩ := exit_begin_spec ring
  refine ⟨s₀, start, fun k le => ?_, ?_⟩
  · obtain ⟨s, reached, inv', freed⟩ := passes_spec inv le
    rw [none_freed, List.nil_append] at freed
    refine ⟨s, reached, inv'.ring, freed, inv'.gone, inv'.node_iff.trans ?_⟩
    rw [List.drop_eq_nil_iff]
    omega
  · obtain ⟨s, reached, inv', freed⟩ := passes_spec inv (Nat.le_refl elems.length)
    rw [none_freed, List.nil_append, List.take_length] at freed
    have empty := inv'.ring
    rw [List.drop_length] at empty
    refine ⟨s, reached, freed, freed ▸ (List.nodup_cons.mp ring.nodup).2, fun fuel enough => ?_⟩
    have loop := (exit_loop_eq inv enough).trans reached
    have reported : s.nodes.list_empty list = some true := empty.list_empty_iff
    simp only [list_exit, start, loop, reported, Option.bind_eq_bind, Option.bind_some]

/-- Two elements. -/
theorem list_exit_empties_two :
    let circle : Nodes (Fin 3) := fun i => some ⟨some (i + 1), some (i - 1)⟩
    ∃ s, list_exit circle 0 3 = some (s, true) ∧ s.freed = [1, 2] := by
  intro circle
  have ring : Ring circle 0 [1, 2] := ⟨⟨⟨rfl, rfl⟩, ⟨rfl, rfl⟩, rfl, rfl⟩, by decide⟩
  obtain ⟨_, _, _, s, _, freed, _, ends⟩ := list_exit_empties ring
  exact ⟨s, ends 3 (by decide), freed⟩

end DeviceDriverEx.List7
