import DeviceDriverEx.Machine

namespace DeviceDriverEx

/-- How far an init function has come that registers its device and then initialises it. -/
inductive InitPc
  | misc_register
  | initialise
  | ready
  | failed
  deriving DecidableEq

structure Loading (σ : Type) where
  init : InitPc
  rval : Int32
  device : σ

inductive LoadAct (α : Type)
  | misc_register (rval : Int32)
  | initialise
  | call (a : α)

section
variable {σ α : Type}

def unregistered (device : σ) : Loading σ := ⟨.misc_register, 0, device⟩

/-- From its registration on the device is used, whether or not it is initialised. -/
def loading (m : Machine σ α) (initialise : σ → σ) : Machine (Loading σ) (LoadAct α) where
  Enabled s
    | .misc_register _ => s.init = .misc_register
    | .initialise => s.init = .initialise
    | .call a => (s.init = .initialise ∨ s.init = .ready) ∧ m.Enabled s.device a
  next s
    | .misc_register rval =>
      if rval ≠ 0 then { s with init := .failed, rval := rval } else { s with init := .initialise }
    | .initialise => { s with init := .ready, device := initialise s.device }
    | .call a => { s with device := m.next s.device a }

instance (m : Machine σ α) [∀ s a, Decidable (m.Enabled s a)] (initialise : σ → σ) (s : Loading σ) :
    ∀ a : LoadAct α, Decidable ((loading m initialise).Enabled s a)
  | .misc_register _ => inferInstanceAs (Decidable (s.init = .misc_register))
  | .initialise => inferInstanceAs (Decidable (s.init = .initialise))
  | .call a => inferInstanceAs
      (Decidable ((s.init = .initialise ∨ s.init = .ready) ∧ m.Enabled s.device a))

/-- The steps picked out by `uses` are not taken before the device is initialised. -/
def AfterInit (uses : α → Bool) (s : Loading σ) : LoadAct α → Prop
  | .call a => uses a = true → s.init = .ready
  | _ => True

/-- They find the device in a state that `ok` allows. -/
def Finds (uses : α → Bool) (ok : σ → Prop) (s : Loading σ) : LoadAct α → Prop
  | .call a => uses a = true → ok s.device
  | _ => True

instance (uses : α → Bool) (s : Loading σ) : ∀ a, Decidable (AfterInit uses s a)
  | .call a => inferInstanceAs (Decidable (uses a = true → s.init = .ready))
  | .misc_register _ | .initialise => isTrue trivial

variable {m : Machine σ α} {initialise : σ → σ} {device : σ} {as : List (LoadAct α)}
  {s : Loading σ} {uses : α → Bool} {P Q : σ → Prop}

/-- What holds of a device in front of its initialisation, and what holds of it behind that. -/
theorem loading_run (base : P device)
    (early : ∀ s a, P s → m.Enabled s a → uses a = false → P (m.next s a))
    (turn : ∀ s, P s → Q (initialise s))
    (late : ∀ s a, Q s → m.Enabled s a → Q (m.next s a))
    (h : Run (loading m initialise) (unregistered device) as s)
    (ok : Meets (loading m initialise) (AfterInit uses) (unregistered device) as) :
    (s.init ≠ .ready → P s.device) ∧ (s.init = .ready → Q s.device) := by
  refine run_invariant_of_meets
    (I := fun s => (s.init ≠ .ready → P s.device) ∧ (s.init = .ready → Q s.device))
    ⟨fun _ => base, fun ready => by cases ready⟩ (fun s a inv enabled ok => ?_) h ok
  obtain ⟨before, behind⟩ := inv
  cases a with
  | misc_register rval =>
    have here : s.init = .misc_register := enabled
    have early := before (by rw [here]; decide)
    dsimp only [loading]
    split
    · exact ⟨fun _ => early, nofun⟩
    · exact ⟨fun _ => early, nofun⟩
  | initialise =>
    have here : s.init = .initialise := enabled
    exact ⟨fun unready => absurd rfl unready, fun _ => turn _ (before (by rw [here]; decide))⟩
  | call a =>
    obtain ⟨_, enabled⟩ := enabled
    refine ⟨fun unready => ?_, fun ready => late _ a (behind ready) enabled⟩
    refine early _ a (before unready) enabled ?_
    exact Bool.eq_false_iff.mpr fun used => unready (ok used)

/-- Where every use tells the two sides apart, the uses find the device as they should exactly if
none comes before its initialisation. -/
theorem finds_iff {ok : σ → Prop} (base : P device)
    (early : ∀ s a, P s → m.Enabled s a → P (m.next s a))
    (turn : ∀ s, P s → Q (initialise s))
    (late : ∀ s a, Q s → m.Enabled s a → Q (m.next s a))
    (bad : ∀ s a, P s → m.Enabled s a → ¬ ok s) (good : ∀ s a, Q s → m.Enabled s a → ok s)
    (h : Run (loading m initialise) (unregistered device) as s) :
    Meets (loading m initialise) (Finds uses ok) (unregistered device) as ↔
      Meets (loading m initialise) (AfterInit uses) (unregistered device) as := by
  refine meets_congr h fun pre t a run enabled => ?_
  have never :
      Meets (loading m initialise) (AfterInit fun _ => false) (unregistered device) pre := by
    intro _ b _ _ _ _
    cases b with
    | call a => exact nofun
    | _ => exact trivial
  obtain ⟨before, behind⟩ :=
    loading_run base (fun s a inv enabled _ => early s a inv enabled) turn late run never
  cases a with
  | misc_register rval => exact Iff.rfl
  | initialise => exact Iff.rfl
  | call a =>
    obtain ⟨_, enabled⟩ := enabled
    refine imp_congr_right fun _ => ⟨fun found => ?_, fun ready => good _ a (behind ready) enabled⟩
    by_contra unready
    exact bad _ a (before unready) enabled found

end

end DeviceDriverEx
