import Mathlib.Data.List.Nodup
import Mathlib.Logic.Function.Basic
import Mathlib.Tactic.Common

namespace DeviceDriverEx

/-- The links of a `struct list_head`; `none` is what `list_del` poisons them with. -/
structure Links (ν : Type) where
  next : Option ν
  prev : Option ν

/-- The nodes in memory with their links. What has been freed has none, and to read or write a link
of it fails. -/
abbrev Nodes (ν : Type) := ν → Option (Links ν)

namespace Nodes
variable {ν : Type}

def next (h : Nodes ν) (a : ν) : Option ν := (h a).bind Links.next

def prev (h : Nodes ν) (a : ν) : Option ν := (h a).bind Links.prev

variable [DecidableEq ν]

def setNext (h : Nodes ν) (a : ν) (b : Option ν) : Option (Nodes ν) :=
  (h a).map fun l => Function.update h a (some { l with next := b })

def setPrev (h : Nodes ν) (a : ν) (b : Option ν) : Option (Nodes ν) :=
  (h a).map fun l => Function.update h a (some { l with prev := b })

/-- The links of a fresh object are null, like poison no pointers to follow. -/
def kzalloc (h : Nodes ν) (a : ν) : Nodes ν := Function.update h a (some ⟨none, none⟩)

def INIT_LIST_HEAD (h : Nodes ν) (a : ν) : Nodes ν := Function.update h a (some ⟨some a, some a⟩)

/-- What has been freed cannot be freed again. -/
def kfree (h : Nodes ν) (a : ν) : Option (Nodes ν) :=
  (h a).map fun _ => Function.update h a none

/-- `__list_add(new, prev, next)` -/
def list_add_between (h : Nodes ν) (new prev next : ν) : Option (Nodes ν) := do
  let h ← h.setPrev next (some new)
  let h ← h.setNext new (some next)
  let h ← h.setPrev new (some prev)
  h.setNext prev (some new)

def list_add_tail (h : Nodes ν) (new head : ν) : Option (Nodes ν) := do
  let last ← h.prev head
  h.list_add_between new last head

/-- `__list_del(entry->prev, entry->next)`, and the poison. -/
def list_del (h : Nodes ν) (entry : ν) : Option (Nodes ν) := do
  let before ← h.prev entry
  let behind ← h.next entry
  let h ← h.setPrev behind (some before)
  let h ← h.setNext before (some behind)
  let h ← h.setNext entry none
  h.setPrev entry none

def list_empty (h : Nodes ν) (head : ν) : Option Bool :=
  (h.next head).map fun a => decide (a = head)

/-- The loop of `list_for_each` from `pos` on, with the nodes that its body is run for. -/
def walk (h : Nodes ν) (head : ν) : Nat → ν → Option (List ν)
  | 0, _ => none
  | fuel + 1, pos =>
    if pos = head then some []
    else do
      let next ← h.next pos
      let rest ← h.walk head fuel next
      some (pos :: rest)

/-- `list_for_each(pos, head)` -/
def list_for_each (h : Nodes ν) (head : ν) (fuel : Nat) : Option (List ν) := do
  let first ← h.next head
  h.walk head fuel first

end Nodes

/-- `b` comes behind `a`. -/
def Joined {ν : Type} (h : Nodes ν) (a b : ν) : Prop := h.next a = some b ∧ h.prev b = some a

/-- The links lead from `a` by way of `xs` to `b`, and back. -/
def Path {ν : Type} (h : Nodes ν) : ν → List ν → ν → Prop
  | a, [], b => Joined h a b
  | a, x :: xs, b => Joined h a x ∧ Path h x xs b

/-- A well-formed circular list: the sentinel `head` and the elements in their order. -/
structure Ring {ν : Type} (h : Nodes ν) (head : ν) (elems : List ν) : Prop where
  linked : Path h head elems head
  nodup : (head :: elems).Nodup

section
variable {ν : Type} {h h' : Nodes ν} {a b x head : ν} {xs ys elems : List ν}

theorem path_append : Path h a (xs ++ x :: ys) b ↔ Path h a xs x ∧ Path h x ys b := by
  induction xs generalizing a with
  | nil => exact Iff.rfl
  | cons y xs ih =>
    rw [List.cons_append, Path, ih, Path, and_assoc]

/-- Any node of a ring can be taken for its head. -/
theorem Ring.rotate (ring : Ring h head (xs ++ x :: ys)) : Ring h x (ys ++ head :: xs) := by
  obtain ⟨before, behind⟩ := path_append.mp ring.linked
  refine ⟨path_append.mpr ⟨behind, before⟩, ?_⟩
  have shuffle : (head :: (xs ++ x :: ys)).Perm (x :: (ys ++ head :: xs)) :=
    @List.perm_append_comm _ (head :: xs) (x :: ys)
  exact shuffle.nodup_iff.mp ring.nodup

theorem Path.prev_end (path : Path h a xs b) : ∃ c, h.prev b = some c := by
  induction xs generalizing a with
  | nil => exact ⟨a, path.2⟩
  | cons x xs ih => exact ih path.2

theorem path_congr (path : Path h a xs b) (next : ∀ y ∈ a :: xs, h'.next y = h.next y)
    (prev : ∀ y ∈ xs ++ [b], h'.prev y = h.prev y) : Path h' a xs b := by
  induction xs generalizing a with
  | nil =>
    exact ⟨(next a List.mem_cons_self).trans path.1, (prev b List.mem_cons_self).trans path.2⟩
  | cons y xs ih =>
    refine ⟨⟨(next a List.mem_cons_self).trans path.1.1,
      (prev y List.mem_cons_self).trans path.1.2⟩, ?_⟩
    exact ih path.2 (fun z hz => next z (List.mem_cons_of_mem a hz))
      fun z hz => prev z (List.mem_cons_of_mem y hz)

theorem Ring.congr (ring : Ring h head elems) (same : ∀ y ∈ head :: elems, h' y = h y) :
    Ring h' head elems := by
  refine ⟨path_congr ring.linked (fun y hy => ?_) (fun y hy => ?_), ring.nodup⟩
  · rw [Nodes.next, Nodes.next, same y hy]
  · have member : y ∈ head :: elems := by
      rcases List.mem_append.mp hy with hy | hy
      · exact List.mem_cons_of_mem head hy
      · exact List.mem_singleton.mp hy ▸ List.mem_cons_self
    rw [Nodes.prev, Nodes.prev, same y member]

variable [DecidableEq ν]

theorem next_update (h : Nodes ν) (a : ν) (l : Links ν) :
    Nodes.next (Function.update h a (some l)) = Function.update h.next a l.next := by
  funext z
  by_cases hz : z = a
  · rw [hz, Nodes.next, Function.update_self, Function.update_self, Option.bind_some]
  · rw [Nodes.next, Function.update_of_ne hz, Function.update_of_ne hz, Nodes.next]

theorem prev_update (h : Nodes ν) (a : ν) (l : Links ν) :
    Nodes.prev (Function.update h a (some l)) = Function.update h.prev a l.prev := by
  funext z
  by_cases hz : z = a
  · rw [hz, Nodes.prev, Function.update_self, Function.update_self, Option.bind_some]
  · rw [Nodes.prev, Function.update_of_ne hz, Function.update_of_ne hz, Nodes.prev]

/-- What is in memory stays there when its links are written. -/
theorem update_eq_none {l l' : Links ν} (here : h a = some l) (z : ν) :
    Function.update h a (some l') z = none ↔ h z = none := by
  by_cases hz : z = a
  · rw [hz, Function.update_self, here]
    exact iff_of_false (Option.some_ne_none _) (Option.some_ne_none _)
  · rw [Function.update_of_ne hz]

/-- What writing one link changes. -/
theorem setNext_spec {p : Option ν} (here : h a ≠ none) : ∃ h', h.setNext a p = some h' ∧
    h'.next = Function.update h.next a p ∧ h'.prev = h.prev ∧
      ∀ z, h' z = none ↔ h z = none := by
  obtain ⟨l, hl⟩ := Option.ne_none_iff_exists'.mp here
  refine ⟨_, by rw [Nodes.setNext, hl, Option.map_some], next_update .., ?_, update_eq_none hl⟩
  have same : h.prev a = l.prev := by rw [Nodes.prev, hl, Option.bind_some]
  rw [prev_update, ← same, Function.update_eq_self]

theorem setPrev_spec {p : Option ν} (here : h a ≠ none) : ∃ h', h.setPrev a p = some h' ∧
    h'.next = h.next ∧ h'.prev = Function.update h.prev a p ∧
      ∀ z, h' z = none ↔ h z = none := by
  obtain ⟨l, hl⟩ := Option.ne_none_iff_exists'.mp here
  refine ⟨_, by rw [Nodes.setPrev, hl, Option.map_some], ?_, prev_update .., update_eq_none hl⟩
  have same : h.next a = l.next := by rw [Nodes.next, hl, Option.bind_some]
  rw [next_update, ← same, Function.update_eq_self]

omit [DecidableEq ν] in
theorem here_of_next {b : ν} (link : h.next a = some b) : h a ≠ none := by
  intro gone
  rw [Nodes.next, gone] at link
  cases link

omit [DecidableEq ν] in
theorem here_of_prev {b : ν} (link : h.prev a = some b) : h a ≠ none := by
  intro gone
  rw [Nodes.prev, gone] at link
  cases link

theorem list_del_spec (behind : h.next x = some b) (before : h.prev x = some a)
    (ha : h a ≠ none) (hb : h b ≠ none) : ∃ h', h.list_del x = some h' ∧
      h'.next = Function.update (Function.update h.next a (some b)) x none ∧
      h'.prev = Function.update (Function.update h.prev b (some a)) x none ∧
      ∀ z, h' z = none ↔ h z = none := by
  obtain ⟨h₁, set₁, next₁, prev₁, here₁⟩ := @setPrev_spec ν h b _ (some a) hb
  obtain ⟨h₂, set₂, next₂, prev₂, here₂⟩ :=
    @setNext_spec ν h₁ a _ (some b) (mt (here₁ a).mp ha)
  have hx := here_of_next behind
  obtain ⟨h₃, set₃, next₃, prev₃, here₃⟩ :=
    @setNext_spec ν h₂ x _ none (mt ((here₂ x).trans (here₁ x)).mp hx)
  obtain ⟨h₄, set₄, next₄, prev₄, here₄⟩ :=
    @setPrev_spec ν h₃ x _ none (mt ((here₃ x).trans ((here₂ x).trans (here₁ x))).mp hx)
  refine ⟨h₄, ?_, ?_, ?_, fun z => ?_⟩
  · simp only [Nodes.list_del, behind, before, set₁, set₂, set₃, set₄, Option.bind_eq_bind,
      Option.bind_some]
  · rw [next₄, next₃, next₂, next₁]
  · rw [prev₄, prev₃, prev₂, prev₁]
  · exact (here₄ z).trans ((here₃ z).trans ((here₂ z).trans (here₁ z)))

theorem list_add_spec {new : ν} (ha : h a ≠ none) (hb : h b ≠ none) (hn : h new ≠ none) :
    ∃ h', h.list_add_between new a b = some h' ∧
      h'.next = Function.update (Function.update h.next new (some b)) a (some new) ∧
      h'.prev = Function.update (Function.update h.prev b (some new)) new (some a) ∧
      ∀ z, h' z = none ↔ h z = none := by
  obtain ⟨h₁, set₁, next₁, prev₁, here₁⟩ := @setPrev_spec ν h b _ (some new) hb
  obtain ⟨h₂, set₂, next₂, prev₂, here₂⟩ :=
    @setNext_spec ν h₁ new _ (some b) (mt (here₁ new).mp hn)
  obtain ⟨h₃, set₃, next₃, prev₃, here₃⟩ :=
    @setPrev_spec ν h₂ new _ (some a) (mt ((here₂ new).trans (here₁ new)).mp hn)
  obtain ⟨h₄, set₄, next₄, prev₄, here₄⟩ :=
    @setNext_spec ν h₃ a _ (some new) (mt ((here₃ a).trans ((here₂ a).trans (here₁ a))).mp ha)
  refine ⟨h₄, ?_, ?_, ?_, fun z => ?_⟩
  · simp only [Nodes.list_add_between, set₁, set₂, set₃, set₄, Option.bind_eq_bind,
      Option.bind_some]
  · rw [next₄, next₃, next₂, next₁]
  · rw [prev₄, prev₃, prev₂, prev₁]
  · exact (here₄ z).trans ((here₃ z).trans ((here₂ z).trans (here₁ z)))

theorem kzalloc_of_ne (h : Nodes ν) (away : b ≠ a) : h.kzalloc a b = h b :=
  Function.update_of_ne away ..

theorem init_list_head_of_ne (h : Nodes ν) (away : b ≠ a) : h.INIT_LIST_HEAD a b = h b :=
  Function.update_of_ne away ..

theorem ring_init (h : Nodes ν) (head : ν) : Ring (h.INIT_LIST_HEAD head) head [] := by
  refine ⟨⟨?_, ?_⟩, List.nodup_singleton head⟩
  · rw [Nodes.INIT_LIST_HEAD, next_update, Function.update_self]
  · rw [Nodes.INIT_LIST_HEAD, prev_update, Function.update_self]

/-- A head whose links are null takes no element. -/
theorem list_add_tail_null {new : ν} (null : h.prev head = none) :
    h.list_add_tail new head = none := by
  simp only [Nodes.list_add_tail, null, Option.bind_eq_bind, Option.bind_none]

theorem Ring.add_tail {new : ν} (ring : Ring h head elems) (fresh : new ∉ head :: elems)
    (here : h new ≠ none) : ∃ h', h.list_add_tail new head = some h' ∧
      Ring h' head (elems ++ [new]) ∧ ∀ z, h' z = none ↔ h z = none := by
  have apart : ∀ y ∈ head :: elems, y ≠ new := by
    rintro y hy rfl
    exact fresh hy
  have nodup : (head :: (elems ++ [new])).Nodup := by
    have all := List.Nodup.concat fresh ring.nodup
    rwa [List.concat_eq_append, List.cons_append] at all
  have hhead : head ≠ new := apart head List.mem_cons_self
  rcases List.eq_nil_or_concat' elems with rfl | ⟨ws, a, rfl⟩
  · have hh := here_of_next ring.linked.1
    obtain ⟨h', add, next, prev, same⟩ := list_add_spec hh hh here
    refine ⟨h', by simp only [Nodes.list_add_tail, ring.linked.2, add, Option.bind_eq_bind,
      Option.bind_some], ⟨⟨⟨?_, ?_⟩, ?_, ?_⟩, nodup⟩, same⟩
    · rw [next, Function.update_self]
    · rw [prev, Function.update_self]
    · rw [next, Function.update_of_ne hhead.symm, Function.update_self]
    · rw [prev, Function.update_of_ne hhead, Function.update_self]
  · obtain ⟨path, forth, back⟩ := path_append.mp ring.linked
    obtain ⟨h', add, next, prev, same⟩ :=
      list_add_spec (here_of_next forth) (here_of_prev back) here
    have ha : a ≠ new := apart a (by simp)
    have last : ∀ y ∈ head :: ws, y ≠ a := by
      rintro y hy rfl
      have twice : ((head :: ws) ++ [y]).Nodup := ring.nodup
      exact (List.disjoint_of_nodup_append twice) hy (List.mem_singleton_self y)
    refine ⟨h', by simp only [Nodes.list_add_tail, back, add, Option.bind_eq_bind,
      Option.bind_some], ⟨?_, nodup⟩, same⟩
    rw [List.append_assoc]
    refine path_append.mpr ⟨path_congr path (fun y hy => ?_) (fun y hy => ?_), ⟨?_, ?_⟩, ?_, ?_⟩
    · have hy' : y ≠ new := by
        refine apart y ?_
        rcases List.mem_cons.mp hy with rfl | hy
        · exact List.mem_cons_self
        · exact List.mem_cons_of_mem head (List.mem_append_left [a] hy)
      rw [next, Function.update_of_ne (last y hy), Function.update_of_ne hy']
    · have hy' : y ≠ head := by
        rintro rfl
        exact (List.nodup_cons.mp ring.nodup).1 hy
      rw [prev, Function.update_of_ne (apart y (List.mem_cons_of_mem head hy)),
        Function.update_of_ne hy']
    · rw [next, Function.update_self]
    · rw [prev, Function.update_self]
    · rw [next, Function.update_of_ne ha.symm, Function.update_self]
    · rw [prev, Function.update_of_ne hhead, Function.update_self]

/-- Taking the head of a ring out leaves the ring of the others. -/
theorem Ring.del_head {z : ν} {zs : List ν} (ring : Ring h x (z :: zs)) :
    ∃ h', h.list_del x = some h' ∧ Ring h' z zs ∧ ∀ y, h' y = none ↔ h y = none := by
  obtain ⟨⟨behind, back⟩, path⟩ := ring.linked
  obtain ⟨hx, nodup⟩ := List.nodup_cons.mp ring.nodup
  have hz := here_of_prev back
  have away : ∀ y ∈ z :: zs, y ≠ x := fun y hy eq => hx (eq ▸ hy)
  rcases List.eq_nil_or_concat' zs with rfl | ⟨ws, a, rfl⟩
  · obtain ⟨forth, before⟩ := path
    obtain ⟨h', del, next, prev, here⟩ := list_del_spec behind before hz hz
    refine ⟨h', del, ⟨⟨?_, ?_⟩, nodup⟩, here⟩
    · rw [next, Function.update_of_ne (away z List.mem_cons_self), Function.update_self]
    · rw [prev, Function.update_of_ne (away z List.mem_cons_self), Function.update_self]
  · obtain ⟨path, forth, before⟩ := path_append.mp path
    obtain ⟨h', del, next, prev, here⟩ := list_del_spec behind before (here_of_next forth) hz
    obtain ⟨fresh, rest⟩ := List.nodup_cons.mp nodup
    have last : ∀ y ∈ z :: ws, y ≠ a := by
      rintro y hy rfl
      rcases List.mem_cons.mp hy with rfl | hy
      · exact fresh (List.mem_append_right ws (List.mem_singleton_self y))
      · exact (List.disjoint_of_nodup_append rest) hy (List.mem_singleton_self y)
    have inner : ∀ y ∈ z :: ws, y ≠ x := by
      intro y hy
      rcases List.mem_cons.mp hy with rfl | hy
      · exact away y List.mem_cons_self
      · exact away y (List.mem_cons_of_mem z (List.mem_append_left [a] hy))
    have ha : a ≠ x :=
      away a (List.mem_cons_of_mem z (List.mem_append_right ws (List.mem_singleton_self a)))
    refine ⟨h', del, ⟨path_append.mpr ⟨path_congr path (fun y hy => ?_) (fun y hy => ?_), ?_, ?_⟩,
      nodup⟩, here⟩
    · rw [next, Function.update_of_ne (inner y hy), Function.update_of_ne (last y hy)]
    · have hyz : y ≠ z := fun eq => fresh (eq ▸ hy)
      rw [prev, Function.update_of_ne (away y (List.mem_cons_of_mem z hy)),
        Function.update_of_ne hyz]
    · rw [next, Function.update_of_ne ha, Function.update_self]
    · rw [prev, Function.update_of_ne (away z List.mem_cons_self), Function.update_self]

theorem Ring.del (ring : Ring h head (xs ++ x :: ys)) :
    ∃ h', h.list_del x = some h' ∧ Ring h' head (xs ++ ys) ∧ ∀ y, h' y = none ↔ h y = none := by
  have turned := ring.rotate
  cases ys with
  | nil =>
    rw [List.append_nil]
    exact turned.del_head
  | cons y ys =>
    obtain ⟨h', del, rest, here⟩ := turned.del_head
    exact ⟨h', del, rest.rotate, here⟩

theorem Ring.kfree (ring : Ring h head elems) (away : x ∉ head :: elems) (here : h x ≠ none) :
    ∃ h', h.kfree x = some h' ∧ Ring h' head elems ∧ h' x = none ∧ ∀ z ≠ x, h' z = h z := by
  obtain ⟨l, hl⟩ := Option.ne_none_iff_exists'.mp here
  have apart : ∀ y ∈ head :: elems, y ≠ x := by
    rintro y hy rfl
    exact away hy
  refine ⟨_, by rw [Nodes.kfree, hl, Option.map_some], ?_, Function.update_self .., ?_⟩
  · exact ring.congr fun y hy => Function.update_of_ne (apart y hy) ..
  · exact fun z hz => Function.update_of_ne hz ..

theorem Ring.list_empty_iff (ring : Ring h head elems) :
    h.list_empty head = some (decide (elems = [])) := by
  cases elems with
  | nil => rw [Nodes.list_empty, ring.linked.1, Option.map_some, decide_eq_true rfl,
      decide_eq_true rfl]
  | cons x xs =>
    have hx : x ≠ head := fun eq => (List.nodup_cons.mp ring.nodup).1 (eq ▸ List.mem_cons_self)
    rw [Nodes.list_empty, ring.linked.1.1, Option.map_some, decide_eq_false hx,
      decide_eq_false (List.cons_ne_nil x xs)]

/-- A walk from a node on visits what comes before the end of its path. -/
theorem walk_path {fuel : Nat} (path : Path h x xs head) (away : head ∉ x :: xs)
    (enough : xs.length + 1 < fuel) : h.walk head fuel x = some (x :: xs) := by
  induction xs generalizing x fuel with
  | nil =>
    obtain ⟨fuel, rfl⟩ : ∃ n, fuel = n + 2 := ⟨fuel - 2, by simp at enough; omega⟩
    have differs : x ≠ head := fun eq => away (eq ▸ List.mem_cons_self)
    simp only [Nodes.walk, if_neg differs, path.1, if_true, Option.bind_eq_bind, Option.bind_some]
  | cons y xs ih =>
    obtain ⟨fuel, rfl⟩ : ∃ n, fuel = n + 1 := ⟨fuel - 1, by omega⟩
    have differs : x ≠ head := fun eq => away (eq ▸ List.mem_cons_self)
    have rest := @ih y fuel path.2 (fun hy => away (List.mem_cons_of_mem x hy))
      (by rw [List.length_cons] at enough; omega)
    simp only [Nodes.walk, if_neg differs, path.1.1, rest, Option.bind_eq_bind, Option.bind_some]

theorem Ring.for_each {fuel : Nat} (ring : Ring h head elems) (enough : elems.length < fuel) :
    h.list_for_each head fuel = some elems := by
  cases elems with
  | nil =>
    obtain ⟨fuel, rfl⟩ : ∃ n, fuel = n + 1 := ⟨fuel - 1, by rw [List.length_nil] at enough; omega⟩
    simp only [Nodes.list_for_each, ring.linked.1, Nodes.walk, if_true, Option.bind_eq_bind,
      Option.bind_some]
  | cons x xs =>
    obtain ⟨away, _⟩ := List.nodup_cons.mp ring.nodup
    have whole := walk_path ring.linked.2 away enough
    simp only [Nodes.list_for_each, ring.linked.1.1, whole, Option.bind_eq_bind, Option.bind_some]

end

end DeviceDriverEx
