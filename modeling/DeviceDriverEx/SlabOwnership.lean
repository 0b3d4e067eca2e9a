import Mathlib.Data.Fintype.Basic
import DeviceDriverEx.SlabGlobalmem

namespace DeviceDriverEx.Slab

section
variable {φ δ ω : Type} [DecidableEq φ] [DecidableEq δ] [DecidableEq ω]

/-- The pointer is kept per device, so an open is harmless only while the device has no file. -/
def OpensFreeDevice (s : State φ δ ω) : Call φ δ ω → Prop
  | .open_ _ d _ => ∀ g, s.private_data g ≠ some d
  | _ => True

instance [Fintype φ] (s : State φ δ ω) : ∀ c : Call φ δ ω, Decidable (OpensFreeDevice s c)
  | .open_ _ d _ => inferInstanceAs (Decidable (∀ g, s.private_data g ≠ some d))
  | .release _ _ | .read .. | .write .. | .ioctl .. | .setSize _ => isTrue trivial

/-- The ownership discipline in one state: every event so far was in order, and with no file
open nothing is allocated and every object has been freed as often as it was returned. -/
structure Sound (s : State φ δ ω) : Prop where
  disciplined : Disciplined s.log
  empty : (∀ f, s.private_data f = none) → ∀ o, live s.log o = false
  freed : (∀ f, s.private_data f = none) → ∀ o, s.log.count (.alloc o) = s.log.count (.free (some o))

/-- Live objects and open files correspond one to one. -/
structure Owned (s : State φ δ ω) : Prop where
  disciplined : Disciplined s.log
  held : ∀ f d, s.private_data f = some d → ∃ o, s.ramdisk d = some o ∧ live s.log o = true
  alone : ∀ f g d, s.private_data f = some d → s.private_data g = some d → f = g
  distinct : ∀ f g d e, s.private_data f = some d → s.private_data g = some e →
    s.ramdisk d = s.ramdisk e → d = e
  owner : ∀ o, live s.log o = true → ∃ f d, s.private_data f = some d ∧ s.ramdisk d = some o

omit [DecidableEq φ] [DecidableEq δ] in
theorem Owned.sound {s : State φ δ ω} (h : Owned s) : Sound s := by
  have none_live : (∀ f, s.private_data f = none) → ∀ o, live s.log o = false := by
    intro closed o
    by_contra hne
    obtain ⟨f, d, hf, _⟩ := h.owner o (by simpa using hne)
    rw [closed f] at hf
    cases hf
  refine ⟨h.disciplined, none_live, fun closed o => ?_⟩
  rw [disciplined_count h.disciplined o, none_live closed o]
  rfl

omit [DecidableEq φ] [DecidableEq δ] in
theorem owned_init (size : Int32) (heap : Option ω → Bytes) : Owned (init size heap : State φ δ ω) := by
  refine ⟨trivial, ?_, ?_, ?_, ?_⟩
  · intro f d h; cases h
  · intro f g d h; cases h
  · intro f g d e h; cases h
  · intro o h; cases h

omit [DecidableEq φ] [DecidableEq δ] in
theorem owned_access {s t : State φ δ ω} {f : φ} {d : δ} {first n : Nat} (h : Owned s)
    (hf : s.private_data f = some d) (hr : t.ramdisk = s.ramdisk)
    (hp : t.private_data = s.private_data) (hl : t.log = .access (s.ramdisk d) first n :: s.log) :
    Owned t := by
  have live_eq : ∀ o, live t.log o = live s.log o := by
    intro o
    rw [hl]
    rfl
  refine ⟨?_, ?_, ?_, ?_, ?_⟩
  · rw [hl]
    exact ⟨h.held f d hf, h.disciplined⟩
  · simpa only [hp, hr, live_eq] using h.held
  · simpa only [hp] using h.alone
  · simpa only [hp, hr] using h.distinct
  · simpa only [hp, hr, live_eq] using h.owner

theorem owned_open {s : State φ δ ω} {f : φ} {d : δ} {o : ω} (h : Owned s)
    (closed : s.private_data f = none) (fresh : live s.log o = false)
    (free : ∀ g, s.private_data g ≠ some d) : Owned (globalmem_open s f d (some o)).1 := by
  -- an open file other than `f` is on another device, whose object is not the fresh one
  have other : ∀ g e, Function.update s.private_data f (some d) g = some e → g ≠ f →
      s.private_data g = some e ∧ e ≠ d ∧
        ∃ x, s.ramdisk e = some x ∧ live s.log x = true ∧ x ≠ o := by
    intro g e hg hne
    rw [Function.update_of_ne hne] at hg
    obtain ⟨x, hx, hlive⟩ := h.held g e hg
    refine ⟨hg, ?_, x, hx, hlive, ?_⟩
    · rintro rfl
      exact free g hg
    · rintro rfl
      rw [fresh] at hlive
      cases hlive
  have own : ∀ e, Function.update s.private_data f (some d) f = some e → e = d := by
    intro e he
    rw [Function.update_self] at he
    exact (Option.some.inj he).symm
  refine ⟨⟨fresh, h.disciplined⟩, ?_, ?_, ?_, ?_⟩
  · intro g e hg
    by_cases hgf : g = f
    · subst hgf
      rw [own e hg]
      exact ⟨o, Function.update_self .., live_alloc_self o _⟩
    · obtain ⟨_, hed, x, hx, hlive, hxo⟩ := other g e hg hgf
      refine ⟨x, (Function.update_of_ne hed ..).trans hx, ?_⟩
      exact (live_alloc_of_ne (Ne.symm hxo) _).trans hlive
  · intro g k e hg hk
    by_cases hgf : g = f <;> by_cases hkf : k = f
    · rw [hgf, hkf]
    · subst hgf
      exact absurd (own e hg) (other k e hk hkf).2.1
    · subst hkf
      exact absurd (own e hk) (other g e hg hgf).2.1
    · exact h.alone g k e (other g e hg hgf).1 (other k e hk hkf).1
  · intro g k e e' hg hk heq
    have diff : ∀ g' e', Function.update s.private_data f (some d) g' = some e' → g' ≠ f →
        Function.update s.ramdisk d (some o) e' ≠ some o := by
      intro g' e' hg' hne he
      obtain ⟨_, hed, x, hx, _, hxo⟩ := other g' e' hg' hne
      rw [Function.update_of_ne hed, hx] at he
      exact hxo (Option.some.inj he)
    change Function.update s.ramdisk d (some o) e = Function.update s.ramdisk d (some o) e' at heq
    by_cases hgf : g = f <;> by_cases hkf : k = f
    · subst hgf; subst hkf
      rw [own e hg, own e' hk]
    · subst hgf
      rw [own e hg, Function.update_self] at heq
      exact absurd heq.symm (diff k e' hk hkf)
    · subst hkf
      rw [own e' hk, Function.update_self] at heq
      exact absurd heq (diff g e hg hgf)
    · obtain ⟨hg', hed, _⟩ := other g e hg hgf
      obtain ⟨hk', hed', _⟩ := other k e' hk hkf
      rw [Function.update_of_ne hed, Function.update_of_ne hed'] at heq
      exact h.distinct g k e e' hg' hk' heq
  · intro x hx
    by_cases hxo : o = x
    · subst hxo
      exact ⟨f, d, Function.update_self .., Function.update_self ..⟩
    · obtain ⟨g, e, hg, he⟩ := h.owner x ((live_alloc_of_ne hxo _).symm.trans hx)
      have hgf : g ≠ f := by
        rintro rfl
        rw [closed] at hg
        cases hg
      have hed : e ≠ d := by
        rintro rfl
        exact free g hg
      exact ⟨g, e, (Function.update_of_ne hgf ..).trans hg, (Function.update_of_ne hed ..).trans he⟩

/-- A failed open leaves NULL behind on a device that nobody has open. -/
theorem owned_open_failed {s : State φ δ ω} {f : φ} {d : δ} (h : Owned s)
    (free : ∀ g, s.private_data g ≠ some d) : Owned (globalmem_open s f d none).1 := by
  have kept : ∀ g e, s.private_data g = some e →
      Function.update s.ramdisk d none e = s.ramdisk e := by
    intro g e hg
    apply Function.update_of_ne
    rintro rfl
    exact free g hg
  refine ⟨h.disciplined, ?_, h.alone, ?_, ?_⟩
  · intro g e hg
    obtain ⟨o, ho, hlive⟩ := h.held g e hg
    exact ⟨o, (kept g e hg).trans ho, hlive⟩
  · intro g k e e' hg hk heq
    change Function.update s.ramdisk d none e = Function.update s.ramdisk d none e' at heq
    rw [kept g e hg, kept k e' hk] at heq
    exact h.distinct g k e e' hg hk heq
  · intro o ho
    obtain ⟨g, e, hg, he⟩ := h.owner o ho
    exact ⟨g, e, hg, (kept g e hg).trans he⟩

omit [DecidableEq δ] in
theorem owned_release {s : State φ δ ω} {f : φ} {d : δ} (h : Owned s)
    (hf : s.private_data f = some d) : Owned (globalmem_release s f d).1 := by
  obtain ⟨o, ho, hlive⟩ := h.held f d hf
  -- whoever stays open has another device and another object
  have stays : ∀ g e, Function.update s.private_data f none g = some e →
      g ≠ f ∧ s.private_data g = some e ∧ s.ramdisk e ≠ some o := by
    intro g e hg
    have hgf : g ≠ f := by
      rintro rfl
      rw [Function.update_self] at hg
      cases hg
    rw [Function.update_of_ne hgf] at hg
    refine ⟨hgf, hg, fun he => hgf ?_⟩
    have hed := h.distinct g f e d hg hf (he.trans ho.symm)
    exact h.alone g f d (hed ▸ hg) hf
  refine ⟨⟨⟨o, ho, hlive⟩, h.disciplined⟩, ?_, ?_, ?_, ?_⟩
  · intro g e hg
    obtain ⟨_, hg', hne⟩ := stays g e hg
    obtain ⟨x, hx, hxlive⟩ := h.held g e hg'
    refine ⟨x, hx, (live_free_of_ne ?_ _).trans hxlive⟩
    rw [ho, ← hx]
    exact Ne.symm hne
  · intro g k e hg hk
    exact h.alone g k e (stays g e hg).2.1 (stays k e hk).2.1
  · intro g k e e' hg hk
    exact h.distinct g k e e' (stays g e hg).2.1 (stays k e' hk).2.1
  · intro x hx
    change live (.free (s.ramdisk d) :: s.log) x = true at hx
    rw [ho] at hx
    have hxo : some o ≠ some x := by
      intro he
      cases he
      rw [live_free_self] at hx
      cases hx
    rw [live_free_of_ne hxo] at hx
    obtain ⟨g, e, hg, he⟩ := h.owner x hx
    have hgf : g ≠ f := by
      rintro rfl
      rw [hf] at hg
      cases hg
      exact hxo (ho.symm.trans he)
    exact ⟨g, e, (Function.update_of_ne hgf ..).trans hg, he⟩

theorem owned_next {s : State φ δ ω} {c : Call φ δ ω} (h : Owned s) (enabled : Enabled s c)
    (ok : OpensFreeDevice s c) : Owned (next s c) := by
  cases c with
  | open_ f d alloc =>
    cases alloc with
    | none => exact owned_open_failed h ok
    | some o => exact owned_open h enabled.1 (enabled.2 o rfl) ok
  | release f d => exact owned_release h enabled
  | read f d fault buf count ppos => exact owned_access h enabled rfl rfl rfl
  | write f d fault buf count ppos => exact owned_access h enabled rfl rfl rfl
  | ioctl f d cmd =>
    by_cases hc : cmd = MEM_CLEAR
    · simp only [next, globalmem_ioctl, if_pos hc]
      exact owned_access h enabled rfl rfl rfl
    · simp only [next, globalmem_ioctl, if_neg hc]
      exact h
  | setSize v => exact ⟨h.disciplined, h.held, h.alone, h.distinct, h.owner⟩

/-- A live object that no open file leads to. -/
def Lost (s : State φ δ ω) (o : ω) : Prop :=
  live s.log o = true ∧ ∀ f d, s.private_data f = some d → s.ramdisk d ≠ some o

omit [DecidableEq φ] [DecidableEq δ] in
theorem lost_access {s t : State φ δ ω} {o : ω} {p : Option ω} {first n : Nat} (h : Lost s o)
    (hr : t.ramdisk = s.ramdisk) (hp : t.private_data = s.private_data)
    (hl : t.log = .access p first n :: s.log) : Lost t o := by
  refine ⟨?_, ?_⟩
  · rw [hl]
    exact h.1
  · simpa only [hp, hr] using h.2

/-- An open loses a live object that no file of another device leads to. -/
theorem lost_open {s : State φ δ ω} {f : φ} {d : δ} {alloc : Option ω} {o : ω}
    (enabled : Enabled s (.open_ f d alloc)) (hlive : live s.log o = true)
    (others : ∀ g e, s.private_data g = some e → e ≠ d → s.ramdisk e ≠ some o) :
    Lost (next s (.open_ f d alloc)) o := by
  have hne : alloc ≠ some o := by
    rintro rfl
    have hfresh := enabled.2 o rfl
    rw [hlive] at hfresh
    cases hfresh
  have apart : ∀ g e, s.private_data g = some e → Function.update s.ramdisk d alloc e ≠ some o := by
    intro g e hg
    by_cases hed : e = d
    · subst hed
      rw [Function.update_self]
      exact hne
    · rw [Function.update_of_ne hed]
      exact others g e hg hed
  cases alloc with
  | none => exact ⟨hlive, apart⟩
  | some x =>
    have hx : x ≠ o := fun he => hne (congrArg some he)
    refine ⟨(live_alloc_of_ne hx _).trans hlive, ?_⟩
    intro g e hg
    by_cases hgf : g = f
    · subst hgf
      change Function.update s.private_data g (some d) g = some e at hg
      rw [Function.update_self] at hg
      cases hg
      change Function.update s.ramdisk d (some x) d ≠ some o
      rw [Function.update_self]
      exact hne
    · exact apart g e ((Function.update_of_ne hgf ..).symm.trans hg)

/-- Nothing that the files do later brings a lost object back to the allocator. -/
theorem lost_next {s : State φ δ ω} {c : Call φ δ ω} {o : ω} (h : Lost s o)
    (enabled : Enabled s c) : Lost (next s c) o := by
  cases c with
  | open_ f d alloc => exact lost_open enabled h.1 fun g e hg _ => h.2 g e hg
  | release f d =>
    refine ⟨(live_free_of_ne (h.2 f d enabled) _).trans h.1, ?_⟩
    intro g e hg
    have hgf : g ≠ f := by
      rintro rfl
      change Function.update s.private_data g none g = some e at hg
      rw [Function.update_self] at hg
      cases hg
    exact h.2 g e ((Function.update_of_ne hgf ..).symm.trans hg)
  | read f d fault buf count ppos => exact lost_access h rfl rfl rfl
  | write f d fault buf count ppos => exact lost_access h rfl rfl rfl
  | ioctl f d cmd =>
    by_cases hc : cmd = MEM_CLEAR
    · simp only [next, globalmem_ioctl, if_pos hc]
      exact lost_access h rfl rfl rfl
    · simp only [next, globalmem_ioctl, if_neg hc]
      exact h
  | setSize v => exact h

/-- A second open of a device overwrites the only pointer to the first one's object. -/
theorem lost_of_second_open {s : State φ δ ω} {f g : φ} {d : δ} {alloc : Option ω} (h : Owned s)
    (enabled : Enabled s (.open_ f d alloc)) (hg : s.private_data g = some d) :
    ∃ o, Lost (next s (.open_ f d alloc)) o := by
  obtain ⟨o, ho, hlive⟩ := h.held g d hg
  refine ⟨o, lost_open enabled hlive fun k e hk hed he => ?_⟩
  exact hed (h.distinct k g e d hk hg (he.trans ho.symm))

theorem owned_run {size : Int32} {heap : Option ω → Bytes} {as : List (Call φ δ ω)}
    {s : State φ δ ω} (h : Run machine (init size heap) as s)
    (meets : Meets machine OpensFreeDevice (init size heap) as) : Owned s :=
  run_invariant_of_meets (owned_init size heap) (fun _ _ => owned_next) h meets

/-- A run keeps the condition or loses an object for good. -/
theorem meets_or_lost {size : Int32} {heap : Option ω → Bytes} {as : List (Call φ δ ω)}
    {s : State φ δ ω} (h : Run machine (init size heap) as s) :
    Meets machine OpensFreeDevice (init size heap) as ∨ ∃ o, Lost s o := by
  induction h with
  | start => exact Or.inl meets_nil
  | @next as s c previous enabled ih =>
    rcases ih with meets | ⟨o, lost⟩
    · by_cases ok : OpensFreeDevice s c
      · exact Or.inl (meets_concat meets previous ok)
      · cases c with
        | open_ f d alloc =>
          simp only [OpensFreeDevice, not_forall, not_not] at ok
          obtain ⟨g, hg⟩ := ok
          exact Or.inr (lost_of_second_open (owned_run previous meets) enabled hg)
        | _ => exact absurd trivial ok
    · exact Or.inr ⟨o, lost_next lost enabled⟩

/-- The objects are accounted for in every state of a run that opens a device only while it has
no file; and a run that has closed all files accounts for them only if it did so. -/
theorem slab_objects_owned {size : Int32} {heap : Option ω → Bytes} {as : List (Call φ δ ω)}
    {s : State φ δ ω} (h : Run machine (init size heap) as s) :
    (Meets machine OpensFreeDevice (init size heap) as →
      ∀ pre post u, as = pre ++ post → Run machine (init size heap) pre u → Sound u) ∧
    ((∀ f, s.private_data f = none) → Sound s →
      Meets machine OpensFreeDevice (init size heap) as) := by
  constructor
  · intro meets pre post u split run
    exact (owned_run run (meets_before (split ▸ meets))).sound
  · intro closed sound
    rcases meets_or_lost h with meets | ⟨o, lost⟩
    · exact meets
    · have dead := sound.empty closed o
      rw [lost.1] at dead
      cases dead

/-- Two files on two devices, one of them opened a second time after its release. -/
theorem slab_objects_owned_reopened :
    let as : List (Call (Fin 2) (Fin 2) (Fin 3)) := [.open_ 0 0 (some 0), .open_ 1 1 (some 1),
      .write 0 0 none (fun _ => 7) 4 0, .release 0 0, .open_ 0 0 (some 0), .ioctl 0 0 MEM_CLEAR,
      .release 1 1, .release 0 0]
    Sound (machine.replay (init 1024 fun _ _ => 0) as) := by
  intro as
  have run : Run machine (init 1024 fun _ _ => 0) as (machine.replay (init 1024 fun _ _ => 0) as) :=
    run_of_admits (by decide)
  exact (slab_objects_owned run).1 (meets_of_replay (by decide)) as [] _ (by simp) run

/-- Two files on one device: the second object is freed twice and the first one never. -/
theorem slab_object_freed_twice :
    let as : List (Call (Fin 2) (Fin 1) (Fin 2)) := [.open_ 0 0 (some 0), .open_ 1 0 (some 1),
      .release 0 0, .release 1 0]
    ∃ s, Run machine (init 1024 fun _ _ => 0) as s ∧ (∀ f, s.private_data f = none) ∧
      s.log.count (.free (some 1)) = 2 ∧ s.log.count (.free (some 0)) = 0 ∧
      live s.log 0 = true ∧ ¬ Sound s := by
  intro as
  refine ⟨machine.replay (init 1024 fun _ _ => 0) as, run_of_admits (by decide), by decide,
    by decide, by decide, by decide, fun sound => ?_⟩
  exact absurd (sound.empty (by decide) 0) (by decide)

end

end DeviceDriverEx.Slab
