import DeviceDriverEx.SlabGlobalmem

namespace DeviceDriverEx.Slab

/-- What the caller of a file operation gets, and the object that it worked on. -/
inductive Effect (ω : Type)
  | opened (rval : Int32)
  | released (rval : Int32) (object : Option ω)
  | copied (r : CallResult) (object : Option ω)
  | controlled (rval : Int64) (object : Option ω)
  | parameter

section
variable {φ δ ω : Type} [DecidableEq φ] [DecidableEq δ] [DecidableEq ω]

def effect (s : State φ δ ω) : Call φ δ ω → Effect ω
  | .open_ f d alloc => .opened (globalmem_open s f d alloc).2
  | .release f d => .released (globalmem_release s f d).2 (s.ramdisk d)
  | .read _ d fault buf count ppos =>
    .copied (globalmem_read s d fault buf count ppos).2 (s.ramdisk d)
  | .write _ d fault buf count ppos =>
    .copied (globalmem_write s d fault buf count ppos).2 (s.ramdisk d)
  | .ioctl _ d cmd => .controlled (globalmem_ioctl s d cmd).2 (s.ramdisk d)
  | .setSize _ => .parameter

omit [DecidableEq ω] in
/-- All that a failed open changes is the pointer of its device, which becomes NULL. -/
theorem open_failed_eq (s : State φ δ ω) (f : φ) (d : δ) :
    globalmem_open s f d none =
      ({ s with ramdisk := Function.update s.ramdisk d none }, -ENOMEM) := rfl

omit [DecidableEq ω] in
theorem open_failed_same_iff (s : State φ δ ω) (f : φ) (d : δ) :
    (globalmem_open s f d none).1 = s ↔ s.ramdisk d = none := by
  constructor
  · intro same
    rw [← same]
    exact Function.update_self ..
  · intro null
    have kept : Function.update s.ramdisk d none = s.ramdisk := by
      rw [← null, Function.update_eq_self]
    rw [open_failed_eq, kept]

/-- States that differ in the pointer of a device that has no file, at most. -/
def SameBut (d : δ) (s t : State φ δ ω) : Prop :=
  t = s ∨ (∀ g, s.private_data g ≠ some d) ∧
    ∃ p, t = { s with ramdisk := Function.update s.ramdisk d p }

omit [DecidableEq φ] [DecidableEq δ] in
theorem ioctl_private_data (s : State φ δ ω) (d : δ) (cmd : UInt32) :
    (globalmem_ioctl s d cmd).1.private_data = s.private_data := by
  unfold globalmem_ioctl
  split <;> rfl

/-- A call through a file of another device does not see the pointer. -/
theorem sameBut_step {d : δ} {s t : State φ δ ω} {c : Call φ δ ω} (h : SameBut d s t)
    (enabled : Enabled s c) : effect s c = effect t c ∧ SameBut d (next s c) (next t c) := by
  rcases h with rfl | ⟨free, p, rfl⟩
  · exact ⟨rfl, Or.inl rfl⟩
  have other : ∀ g e, s.private_data g = some e →
      Function.update s.ramdisk d p e = s.ramdisk e := by
    intro g e hg
    apply Function.update_of_ne
    rintro rfl
    exact free g hg
  have commutes : ∀ e q, e ≠ d → Function.update (Function.update s.ramdisk d p) e q =
      Function.update (Function.update s.ramdisk e q) d p :=
    fun e q hed => Function.update_comm (Ne.symm hed) p q s.ramdisk
  cases c with
  | open_ f e alloc =>
    refine ⟨by cases alloc <;> rfl, ?_⟩
    by_cases hed : e = d
    · subst hed
      left
      cases alloc <;> simp only [next, globalmem_open, Function.update_idem]
    · right
      cases alloc with
      | none =>
        refine ⟨free, p, ?_⟩
        simp only [next, globalmem_open, commutes e none hed]
      | some o =>
        refine ⟨fun g hg => ?_, p, ?_⟩
        · by_cases hgf : g = f
          · subst hgf
            rw [show (next s (.open_ g e (some o))).private_data g = some e from
              Function.update_self ..] at hg
            exact hed (Option.some.inj hg)
          · exact free g ((Function.update_of_ne hgf ..).symm.trans hg)
        · simp only [next, globalmem_open, commutes e (some o) hed]
  | release f e =>
    have same := other f e enabled
    refine ⟨by simp only [effect, globalmem_release, same], Or.inr ⟨fun g hg => ?_, p, ?_⟩⟩
    · by_cases hgf : g = f
      · subst hgf
        rw [show (next s (.release g e)).private_data g = none from Function.update_self ..] at hg
        cases hg
      · exact free g ((Function.update_of_ne hgf ..).symm.trans hg)
    · simp only [next, globalmem_release, same]
  | read f e fault buf count ppos =>
    have same := other f e enabled
    exact ⟨by simp only [effect, globalmem_read, same],
      Or.inr ⟨free, p, by simp only [next, globalmem_read, same]⟩⟩
  | write f e fault buf count ppos =>
    have same := other f e enabled
    exact ⟨by simp only [effect, globalmem_write, same],
      Or.inr ⟨free, p, by simp only [next, globalmem_write, same]⟩⟩
  | ioctl f e cmd =>
    have same := other f e enabled
    have files := ioctl_private_data s e cmd
    refine ⟨?_, Or.inr ⟨fun g hg => free g ((congrFun files g).symm.trans hg), p, ?_⟩⟩
    · by_cases clears : cmd = MEM_CLEAR
      · simp only [effect, globalmem_ioctl, same, if_pos clears]
      · simp only [effect, globalmem_ioctl, same, if_neg clears]
    · by_cases clears : cmd = MEM_CLEAR
      · simp only [next, globalmem_ioctl, same, if_pos clears]
      · simp only [next, globalmem_ioctl, if_neg clears]
  | setSize v => exact ⟨rfl, Or.inr ⟨free, p, rfl⟩⟩

/-- Every call of every continuation has the same effect in both states. -/
def SameLater (s t : State φ δ ω) : Prop :=
  ∀ calls u, Run machine s calls u → DeliverAlike machine machine s t effect calls

theorem sameLater_of_sameBut {d : δ} {s t : State φ δ ω} (h : SameBut d s t) : SameLater s t := by
  intro calls v run pre c post u u' split before before'
  have apart : SameBut d u u' :=
    run_lockstep h (fun _ _ _ same enabled _ => (sameBut_step same enabled).2) before before'
  obtain ⟨w, again, enabled⟩ := run_before (split ▸ run)
  cases run_unique before again
  exact (sameBut_step apart enabled).1

/-- The release of a file that is open on the device gives NULL to `kmem_cache_free`. -/
theorem not_sameLater {s : State φ δ ω} {f g : φ} {d : δ} (hg : s.private_data g = some d)
    (held : s.ramdisk d ≠ none) : ¬ SameLater s (globalmem_open s f d none).1 := by
  intro later
  have run : Run machine s [.release g d] (next s (.release g d)) := Run.next Run.start hg
  have same := later _ _ run [] _ [] _ _ rfl Run.start Run.start
  have freed : s.ramdisk d = Function.update s.ramdisk d none d := (Effect.released.inj same).2
  rw [Function.update_self] at freed
  exact held freed

end

/-- A failed open of `d` leaves the state as it was exactly if the pointer of `d` was NULL before.
Otherwise the calls that follow still have the effects that they would have had exactly if no file
is open on `d`. -/
theorem failed_open_unchanged_iff {φ δ ω : Type} [DecidableEq φ] [DecidableEq δ] [DecidableEq ω]
    (s : State φ δ ω) (f : φ) (d : δ) :
    let failed := globalmem_open s f d none
    failed.2 = -ENOMEM ∧ (failed.1 = s ↔ s.ramdisk d = none) ∧
      (SameLater s failed.1 ↔ s.ramdisk d = none ∨ ∀ g, s.private_data g ≠ some d) ∧
      (failed.1 = s ∧ SameLater s failed.1 ↔ s.ramdisk d = none) := by
  intro failed
  have unchanged := open_failed_same_iff s f d
  have later : SameLater s failed.1 ↔ s.ramdisk d = none ∨ ∀ g, s.private_data g ≠ some d := by
    constructor
    · intro later
      by_contra either
      obtain ⟨held, some_file⟩ := not_or.mp either
      obtain ⟨g, hg⟩ := not_forall.mp some_file
      exact not_sameLater (not_not.mp hg) held later
    · rintro (null | free)
      · exact sameLater_of_sameBut (d := d) (Or.inl (unchanged.mpr null))
      · exact sameLater_of_sameBut (Or.inr ⟨free, none, rfl⟩)
  refine ⟨rfl, unchanged, later, ?_⟩
  rw [unchanged, later]
  exact and_iff_left_of_imp Or.inl

/-- While one file is open, a second open of its device fails: the pointer of the first file's
object is gone, and its release frees NULL. -/
theorem failed_open_loses_object :
    let s : State (Fin 2) Unit Unit := machine.replay (init 1024 fun _ _ => 0) [.open_ 0 () (some ())]
    let failed := globalmem_open s 1 () none
    Run machine (init 1024 fun _ _ => 0) [.open_ 0 () (some ())] s ∧ failed.2 = -ENOMEM ∧
      s.ramdisk () = some () ∧ failed.1.ramdisk () = none ∧
      effect failed.1 (.release 0 ()) = .released 0 none ∧ ¬ SameLater s failed.1 := by
  intro s failed
  refine ⟨run_of_admits (by decide), rfl, by decide, by decide, rfl, ?_⟩
  exact @not_sameLater (Fin 2) Unit Unit _ _ _ s 1 0 () (by decide) (by decide)

end DeviceDriverEx.Slab
