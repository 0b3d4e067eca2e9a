import DeviceDriverEx.ListHead
import Mathlib.Data.List.Count

namespace DeviceDriverEx

section
variable {ν : Type} [DecidableEq ν]

/-- The walk of 7_LAB2: each node that it comes to is taken for the `list` of a module. -/
def walkmodule_init (h : Nodes ν) (THIS_MODULE : ν) (fuel : Nat) : Option (List ν) := do
  let head ← h.prev THIS_MODULE
  h.list_for_each head fuel

namespace List7

/-- `#define N (8)` -/
def N : Nat := 8

/-- The elements that `kzalloc` returned, each with its `val`, are put on the list. -/
def add_all (h : Nodes ν) (list : ν) : List ν → Option (Nodes ν)
  | [] => some h
  | tmp :: rest => do
    let h ← (h.kzalloc tmp).list_add_tail tmp list
    add_all h list rest

/-- The second walk of `list_init`, from the node that the first one found. -/
def walk_from (h : Nodes ν) (start : ν) (fuel : Nat) : Option (List ν) := h.list_for_each start fuel

/-- The nodes that the two walks of `list_init` take for a `struct mylist`; `start` is the last one
with the value 5, and nothing if there is none. -/
def list_init (h : Nodes ν) (list : ν) (tmp : Nat → ν) (fuel : Nat) :
    Option (List ν × List ν) := do
  let nodes := (List.range N).map tmp
  let h ← add_all h list nodes
  let first ← h.list_for_each list fuel
  let start ← (first.filter fun node => nodes.idxOf node = 5).getLast?
  let second ← walk_from h start fuel
  some (first, second)

end List7

/-- What a walk over the elements of a list owes: each one once, and the sentinel is not taken for
one of them. -/
structure VisitsElements (sentinel : ν) (elems visited : List ν) : Prop where
  each : ∀ e ∈ elems, visited.count e = 1
  only : ∀ e ∈ visited, e ∈ elems
  sentinel : sentinel ∉ visited

variable {h : Nodes ν} {head m : ν} {xs ys elems : List ν} {fuel : Nat}

omit [DecidableEq ν] in
/-- The node in front of an element: the last of those before it, or the sentinel. -/
theorem Ring.prev_of_mem (ring : Ring h head (xs ++ m :: ys)) :
    h.prev m = some (xs.getLast?.getD head) := by
  obtain ⟨path, _⟩ := path_append.mp ring.linked
  rcases List.eq_nil_or_concat' xs with rfl | ⟨ws, p, rfl⟩
  · exact path.2
  · rw [List.getLast?_concat]
    exact (path_append.mp path).2.2

/-- From the module itself on, all but the one in front of it, and the sentinel if there is one. -/
theorem walkmodule_visits (ring : Ring h head (xs ++ m :: ys))
    (enough : (xs ++ m :: ys).length < fuel) : walkmodule_init h m fuel =
      some (m :: ys ++ if xs = [] then [] else head :: xs.dropLast) := by
  have start := ring.prev_of_mem
  rcases List.eq_nil_or_concat' xs with rfl | ⟨ws, p, rfl⟩
  · have whole := ring.for_each enough
    simp only [walkmodule_init, start, List.getLast?_nil, Option.getD_none, Option.bind_eq_bind,
      Option.bind_some, whole, List.nil_append, if_true, List.append_nil]
  · rw [List.append_assoc, List.singleton_append] at ring enough
    have room : (m :: ys ++ head :: ws).length < fuel := by
      simp only [List.length_append, List.length_cons] at enough ⊢
      omega
    have turned := ring.rotate.for_each room
    have some_before : ws ++ [p] ≠ [] := by simp
    rw [if_neg some_before, List.dropLast_concat]
    simp only [walkmodule_init, start, List.getLast?_concat, Option.getD_some,
      Option.bind_eq_bind, Option.bind_some]
    exact turned

theorem walk_from_visits (ring : Ring h head (xs ++ m :: ys))
    (enough : (xs ++ m :: ys).length < fuel) :
    List7.walk_from h m fuel = some (ys ++ head :: xs) := by
  refine ring.rotate.for_each ?_
  simp only [List.length_append, List.length_cons] at enough ⊢
  omega

theorem Ring.add_all {nodes : List ν} (ring : Ring h head elems)
    (nodup : (head :: (elems ++ nodes)).Nodup) :
    ∃ h', List7.add_all h head nodes = some h' ∧ Ring h' head (elems ++ nodes) := by
  induction nodes generalizing h elems with
  | nil =>
    rw [List.append_nil]
    exact ⟨h, rfl, ring⟩
  | cons tmp rest ih =>
    have fresh : tmp ∉ head :: elems := by
      rw [← List.cons_append] at nodup
      exact fun member => (List.disjoint_of_nodup_append nodup) member List.mem_cons_self
    have apart : ∀ y ∈ head :: elems, y ≠ tmp := by
      rintro y hy rfl
      exact fresh hy
    have before : Ring (h.kzalloc tmp) head elems :=
      ring.congr fun y hy => Function.update_of_ne (apart y hy) ..
    have here : h.kzalloc tmp tmp ≠ none := by
      rw [Nodes.kzalloc, Function.update_self]
      exact Option.some_ne_none _
    obtain ⟨h', add, added, _⟩ := before.add_tail fresh here
    obtain ⟨h'', all, whole⟩ := ih added (by rwa [List.append_assoc])
    refine ⟨h'', ?_, by rwa [List.append_assoc] at whole⟩
    simp only [List7.add_all, add, Option.bind_eq_bind, Option.bind_some]
    exact all

/-- The node at one place of a list is the only one that is found there. -/
theorem filter_idxOf (nodup : (xs ++ m :: ys).Nodup) :
    ((xs ++ m :: ys).filter fun node => (xs ++ m :: ys).idxOf node = xs.length) = [m] := by
  obtain ⟨_, rest, apart⟩ := List.nodup_append.mp nodup
  have before : m ∉ xs := fun hm => apart m hm m List.mem_cons_self rfl
  have own : (xs ++ m :: ys).idxOf m = xs.length := by
    rw [List.idxOf_append_of_notMem before, List.idxOf_cons_self, Nat.add_zero]
  have unique : ∀ y ∈ xs ++ m :: ys, (xs ++ m :: ys).idxOf y = xs.length → y = m := by
    intro y hy found
    exact (List.idxOf_inj hy).mp (found.trans own.symm)
  have front : (xs.filter fun node => (xs ++ m :: ys).idxOf node = xs.length) = [] := by
    refine List.filter_eq_nil_iff.mpr fun y hy found => before ?_
    rw [← unique y (List.mem_append_left _ hy) (of_decide_eq_true found)]
    exact hy
  have back : (ys.filter fun node => (xs ++ m :: ys).idxOf node = xs.length) = [] := by
    refine List.filter_eq_nil_iff.mpr fun y hy found => (List.nodup_cons.mp rest).1 ?_
    have member := List.mem_append_right xs (List.mem_cons_of_mem m hy)
    rw [← unique y member (of_decide_eq_true found)]
    exact hy
  have middle : ((m :: ys).filter fun node => (xs ++ m :: ys).idxOf node = xs.length) =
      m :: ys.filter fun node => (xs ++ m :: ys).idxOf node = xs.length :=
    List.filter_cons_of_pos (decide_eq_true own)
  rw [List.filter_append, front, middle, back, List.nil_append]

/-- Loading the module: the elements are walked through in the order of their values, and then,
from the one with the value 5 on, the two behind it, the sentinel and the first five. -/
theorem list_init_visits {tmp : Nat → ν} (ring : Ring h head [])
    (nodup : (head :: (List.range List7.N).map tmp).Nodup) (enough : List7.N < fuel) :
    List7.list_init h head tmp fuel = some ((List.range 8).map tmp,
      [tmp 6, tmp 7] ++ head :: (List.range 5).map tmp) := by
  obtain ⟨h', all, ring'⟩ :=
    @Ring.add_all ν _ h head [] ((List.range List7.N).map tmp) ring nodup
  have nodes : (List.range List7.N).map tmp =
      (List.range 5).map tmp ++ tmp 5 :: [tmp 6, tmp 7] := rfl
  have added : Ring h' head ((List.range List7.N).map tmp) := ring'
  have length : ((List.range List7.N).map tmp).length < fuel := by
    rw [List.length_map, List.length_range]
    exact enough
  have whole := added.for_each length
  have found := filter_idxOf (nodes ▸ (List.nodup_cons.mp nodup).2)
  rw [← nodes, List.length_map, List.length_range] at found
  rw [nodes] at added length
  have second := walk_from_visits added length
  simp only [List7.list_init, all, whole, found, List.getLast?_singleton, second,
    Option.bind_eq_bind, Option.bind_some]
  rfl

theorem visitsElements_of_perm {sentinel : ν} {visited : List ν} (perm : visited.Perm elems)
    (nodup : (sentinel :: elems).Nodup) : VisitsElements sentinel elems visited := by
  obtain ⟨away, distinct⟩ := List.nodup_cons.mp nodup
  refine ⟨fun e he => ?_, fun e he => perm.mem_iff.mp he, fun hs => away (perm.mem_iff.mp hs)⟩
  rw [perm.count_eq]
  exact List.count_eq_one_of_mem distinct he

theorem walkmodule_visits_iff (ring : Ring h head (xs ++ m :: ys)) :
    VisitsElements head (xs ++ m :: ys) (m :: ys ++ if xs = [] then [] else head :: xs.dropLast) ↔
      xs = [] := by
  constructor
  · intro visits
    by_contra before
    rw [if_neg before] at visits
    exact visits.sentinel (List.mem_append_right _ List.mem_cons_self)
  · rintro rfl
    rw [if_pos rfl, List.append_nil, List.nil_append]
    exact visitsElements_of_perm (List.Perm.refl _) ring.nodup

end

/-- Whatever the list, the walk of `walkmodule_init` visits every module once and not the sentinel
exactly if `THIS_MODULE` is the first one, and the second walk of `list_init` always takes the
sentinel for an element. -/
theorem walks_visit_elements_iff {ν : Type} [DecidableEq ν] {h : Nodes ν} {head : ν}
    {elems : List ν} (ring : Ring h head elems) :
    (∀ xs THIS_MODULE ys, elems = xs ++ THIS_MODULE :: ys → ∃ visited,
      (∀ fuel, elems.length < fuel → walkmodule_init h THIS_MODULE fuel = some visited) ∧
        (VisitsElements head elems visited ↔ xs = [])) ∧
    ∀ xs start ys, elems = xs ++ start :: ys → ∃ visited,
      (∀ fuel, elems.length < fuel → List7.walk_from h start fuel = some visited) ∧
        head ∈ visited ∧ ¬ VisitsElements head (xs ++ ys) visited := by
  constructor
  · rintro xs m ys rfl
    exact ⟨_, fun fuel enough => walkmodule_visits ring enough, walkmodule_visits_iff ring⟩
  · rintro xs start ys rfl
    have member : head ∈ ys ++ head :: xs := List.mem_append_right ys List.mem_cons_self
    exact ⟨_, fun fuel enough => walk_from_visits ring enough, member,
      fun visits => visits.sentinel member⟩

/-- Three modules, of which the first walks. -/
theorem walks_visit_elements_iff_first :
    let circle : Nodes (Fin 4) := fun i => some ⟨some (i + 1), some (i - 1)⟩
    ∃ visited, walkmodule_init circle 1 4 = some visited ∧ VisitsElements 0 [1, 2, 3] visited := by
  intro circle
  have ring : Ring circle 0 [1, 2, 3] :=
    ⟨⟨⟨rfl, rfl⟩, ⟨rfl, rfl⟩, ⟨rfl, rfl⟩, rfl, rfl⟩, by decide⟩
  obtain ⟨visited, walk, visits⟩ := (walks_visit_elements_iff ring).1 [] 1 [2, 3] rfl
  exact ⟨visited, walk 4 (by decide), visits.mpr rfl⟩

/-- The second module of three leaves out the first one and takes the sentinel for a module; the
walk from the second element of three takes it for an element. -/
theorem walks_visit_sentinel :
    let circle : Nodes (Fin 4) := fun i => some ⟨some (i + 1), some (i - 1)⟩
    Ring circle 0 [1, 2, 3] ∧ walkmodule_init circle 2 4 = some [2, 3, 0] ∧
      ¬ VisitsElements 0 [1, 2, 3] [2, 3, 0] ∧ List7.walk_from circle 2 4 = some [3, 0, 1] ∧
      ¬ VisitsElements 0 [1, 3] [3, 0, 1] := by
  intro circle
  refine ⟨⟨⟨⟨rfl, rfl⟩, ⟨rfl, rfl⟩, ⟨rfl, rfl⟩, rfl, rfl⟩, by decide⟩, by decide, fun visits => ?_,
    by decide, fun visits => ?_⟩
  · exact visits.sentinel (by decide)
  · exact visits.sentinel (by decide)

end DeviceDriverEx
