import DeviceDriverEx.GlobalmemSerial
import Mathlib.Data.List.Induction

namespace DeviceDriverEx

/-- The modules of 19_LAB1 whose writes are looked at here. -/
inductive Lab1
  | rwsem
  | sem
  | complete
  | wait

def Lab1.globalmem_write (lab : Lab1) (fault : Option Fault) (mem buf : Bytes) (count : UInt64)
    (ppos : Int64) : CallResult :=
  match lab with
  | .rwsem => Rwsem.globalmem_write fault mem buf count ppos
  | .sem | .complete | .wait =>
    (DeviceDriverEx.globalmem_write fault mem buf count ppos).toCallResult

/-- A call on one of the devices, with the position it starts from. -/
inductive DeviceCall (δ : Type)
  | read (dev : δ) (fault : Option Fault) (buf : Bytes) (count : UInt64) (pos : FilePos)
  | write (dev : δ) (fault : Option Fault) (buf : Bytes) (count : UInt64) (pos : FilePos)
  | ioctl (dev : δ) (cmd : UInt32)

/-- The device memories after a call; a read copies out of them only. -/
def Lab1.exec {δ : Type} [DecidableEq δ] (lab : Lab1) (mem : δ → Bytes) :
    DeviceCall δ → δ → Bytes
  | .read _ _ _ _ _ => mem
  | .write dev fault buf count pos =>
    Function.update mem dev (lab.globalmem_write fault (mem dev) buf count pos.val).bytes
  | .ioctl dev cmd => Function.update mem dev (globalmem_ioctl (mem dev) cmd).2

/-- From the devices as `kzalloc` left them. -/
def Lab1.content {δ : Type} [DecidableEq δ] (lab : Lab1) (calls : List (DeviceCall δ)) :
    δ → Bytes :=
  calls.foldl lab.exec fun _ _ => 0

namespace DeviceCall
variable {δ : Type}

/-- What a call stores: a write, the bytes that came across before a fault, and the zeros that the
kernel may put behind them. -/
def stores : DeviceCall δ → List (StoreEvent δ)
  | .read _ _ _ _ _ => []
  | .write dev fault buf count pos =>
    let n := windowLen pos.toNat count
    [.stored dev pos.toNat (arriving fault buf n) (overwritten fault n)]
  | .ioctl dev cmd => if cmd = MEM_CLEAR then [.cleared dev] else []

/-- A write whose user pages fault before it has all its bytes. -/
def Fails : DeviceCall δ → Prop
  | .write _ fault _ count pos =>
    copied fault (windowLen pos.toNat count) < windowLen pos.toNat count
  | _ => False

instance : ∀ c : DeviceCall δ, Decidable c.Fails
  | .write _ _ _ _ _ => inferInstanceAs (Decidable (_ < _))
  | .read _ _ _ _ _ | .ioctl _ _ => isFalse id

/-- What the writes that succeed and the clears store. -/
def successes (c : DeviceCall δ) : List (StoreEvent δ) := if c.Fails then [] else c.stores

/-- A write that fails at its first byte, where the kernel clears nothing for it. -/
def FailsAtOnce : DeviceCall δ → Prop
  | .write _ fault _ _ _ => fault = some ⟨0, false⟩
  | _ => True

end DeviceCall

theorem Lab1.globalmem_write_eq (lab : Lab1) (fault : Option Fault) (mem buf : Bytes)
    (count : UInt64) (ppos : Int64) : lab.globalmem_write fault mem buf count ppos =
      (DeviceDriverEx.globalmem_write fault mem buf count ppos).toCallResult := by
  cases lab with
  | rwsem =>
    unfold Lab1.globalmem_write Rwsem.globalmem_write DeviceDriverEx.globalmem_write
    by_cases past : ppos.toUInt64 ≥ GLOBALMEM_SIZE
    · simp only [if_pos past]
    · simp only [if_neg past]
  | sem | complete | wait => rfl

theorem globalmem_write_fails_iff (fault : Option Fault) (mem buf : Bytes) (count : UInt64)
    (p : FilePos) : (globalmem_write fault mem buf count p.val).rval = (-EFAULT).toInt64 ↔
      copied fault (windowLen p.toNat count) < windowLen p.toNat count := by
  obtain ⟨_, short, whole⟩ := globalmem_write_fault fault mem buf count p
  refine ⟨fun failed => by_contra fun all => ?_, fun h => (short h).1⟩
  have positive := (whole all).1
  rw [failed] at positive
  exact absurd positive (Int.ne_of_lt (Int.lt_of_lt_of_le (by decide) (Int.natCast_nonneg _)))

/-- A write whose user pages fault in time fails; what it leaves depends on the kernel. -/
theorem failed_copy {fault : Option Fault} {n : Nat} (short : copied fault n < n)
    (mem buf : Bytes) (at_ : Nat) :
    ∃ f, fault = some f ∧ f.after < n ∧
      let bytes := copy_from_user fault mem at_ buf n
      (∀ j < f.after, bytes (at_ + j) = buf j) ∧
      (∀ j, f.after ≤ j → j < n → bytes (at_ + j) = if f.pads then 0 else mem (at_ + j)) ∧
      ∀ k, k < at_ ∨ at_ + n ≤ k → bytes k = mem k := by
  cases fault with
  | none => exact absurd short (Nat.lt_irrefl n)
  | some f =>
    have few : f.after < n := by
      have short' : min f.after n < n := short
      omega
    have moved : copied (some f) n = f.after := Nat.min_eq_left (Nat.le_of_lt few)
    have stored := (overwritten_bounds (some f) n).2
    refine ⟨f, rfl, few, fun j hj => copy_from_user_copied (by omega), fun j hj hn => ?_,
      fun k hk => copy_from_user_outside (by omega)⟩
    cases pads : f.pads with
    | true =>
      have all : overwritten (some f) n = n := if_pos pads
      exact copy_from_user_cleared (by omega) (by omega)
    | false =>
      have kept : overwritten (some f) n = min f.after n := if_neg (by simp [pads])
      exact copy_from_user_outside (by omega)

section
variable {δ : Type} [DecidableEq δ]

theorem exec_stores (lab : Lab1) {mem : δ → Bytes} {past : List (StoreEvent δ)}
    (h : ∀ d, ∀ k < 1024, mem d k = lastStored past d k) (c : DeviceCall δ) :
    ∀ d, ∀ k < 1024, lab.exec mem c d k = lastStored (c.stores ++ past) d k := by
  intro d k hk
  cases c with
  | read dev fault buf count pos => exact h d k hk
  | write dev fault buf count pos =>
    obtain ⟨bytes, _⟩ := globalmem_write_fault fault (mem dev) buf count pos
    by_cases hd : d = dev
    · subst hd
      simp only [Lab1.exec, DeviceCall.stores, List.singleton_append, Function.update_self,
        lastStored_stored, lab.globalmem_write_eq, bytes]
      unfold copy_from_user copyBytes
      split
      next => rfl
      next => exact h d k hk
    · simp only [Lab1.exec, DeviceCall.stores, List.singleton_append, Function.update_of_ne hd]
      rw [(lastStored_other (Ne.symm hd) _ _ _ _).1]
      exact h d k hk
  | ioctl dev cmd =>
    by_cases hd : d = dev
    · subst hd
      by_cases hc : cmd = MEM_CLEAR
      · simp only [Lab1.exec, DeviceCall.stores, globalmem_ioctl, if_pos hc,
          List.singleton_append, Function.update_self, lastStored_cleared]
        exact if_pos hk
      · simp only [Lab1.exec, DeviceCall.stores, globalmem_ioctl, if_neg hc, List.nil_append,
          Function.update_self]
        exact h d k hk
    · simp only [Lab1.exec, Function.update_of_ne hd]
      rw [h d k hk]
      by_cases hc : cmd = MEM_CLEAR
      · rw [DeviceCall.stores, if_pos hc, List.singleton_append,
          (lastStored_other (Ne.symm hd) 0 (fun _ => 0) 0 _).2]
      · rw [DeviceCall.stores, if_neg hc, List.nil_append]

theorem content_stores (lab : Lab1) (calls : List (DeviceCall δ)) :
    ∀ d, ∀ k < 1024, lab.content calls d k = lastStored (calls.reverse.flatMap (·.stores)) d k := by
  induction calls using List.reverseRecOn with
  | nil => exact fun _ _ _ => rfl
  | append_singleton calls c ih =>
    rw [Lab1.content, List.foldl_append, List.reverse_append, List.reverse_singleton,
      List.singleton_append, List.flatMap_cons]
    exact exec_stores lab ih c

omit [DecidableEq δ] in
theorem stores_of_failsAtOnce {c : DeviceCall δ} (failed : c.Fails) (atOnce : c.FailsAtOnce) :
    ∃ dev pos buf, c.stores = [.stored dev pos buf 0] := by
  cases c with
  | write dev fault buf count pos =>
    cases (show fault = some ⟨0, false⟩ from atOnce)
    exact ⟨dev, pos.toNat, arriving (some ⟨0, false⟩) buf (windowLen pos.toNat count),
      by simp [DeviceCall.stores, overwritten]⟩
  | read | ioctl => cases failed

theorem lastStored_nothing (dev : δ) (pos : Nat) (buf : Bytes) (past : List (StoreEvent δ)) :
    lastStored (.stored dev pos buf 0 :: past) = lastStored past := by
  funext d k
  exact if_neg (by omega)

theorem lastStored_append {new past past' : List (StoreEvent δ)}
    (h : lastStored past = lastStored past') :
    lastStored (new ++ past) = lastStored (new ++ past') := by
  induction new with
  | nil => exact h
  | cons e new ih =>
    funext d k
    cases e with
    | stored dev pos src n => simp only [List.cons_append, lastStored, ih]
    | cleared dev => simp only [List.cons_append, lastStored, ih]

theorem lastStored_successes {calls : List (DeviceCall δ)}
    (atOnce : ∀ c ∈ calls, c.Fails → c.FailsAtOnce) :
    lastStored (calls.flatMap (·.stores)) = lastStored (calls.flatMap (·.successes)) := by
  induction calls with
  | nil => rfl
  | cons c calls ih =>
    have rest := ih fun b hb => atOnce b (List.mem_cons_of_mem c hb)
    rw [List.flatMap_cons, List.flatMap_cons]
    by_cases failed : c.Fails
    · obtain ⟨dev, pos, buf, nothing⟩ :=
        stores_of_failsAtOnce failed (atOnce c List.mem_cons_self failed)
      rw [nothing, DeviceCall.successes, if_pos failed, List.singleton_append,
        lastStored_nothing, rest, List.nil_append]
    · rw [DeviceCall.successes, if_neg failed]
      exact lastStored_append rest

end

/-- A write that fails leaves the position and keeps what came across: a prefix of the requested
bytes, and not all of them. Behind it the kernel clears the rest of the requested bytes, or they stay
as they were. What the devices hold is a function of the stores, those of the failed writes included;
where the failed writes fault at their first byte and clear nothing it is one of the successful
writes and the clears alone. -/
theorem failed_write_leaves_prefix (lab : Lab1) :
    (∀ fault mem buf count (p : FilePos),
      let n := windowLen p.toNat count
      let r := lab.globalmem_write fault mem buf count p.val
      r.rval = (-EFAULT).toInt64 →
        r.ppos = p.val ∧ ∃ f, fault = some f ∧ f.after < n ∧
          (∀ j < f.after, r.bytes (p.toNat + j) = buf j) ∧
          (∀ j, f.after ≤ j → j < n →
            r.bytes (p.toNat + j) = if f.pads then 0 else mem (p.toNat + j)) ∧
          (∀ k, k < p.toNat ∨ p.toNat + n ≤ k → r.bytes k = mem k) ∧
          (r.bytes = mem ↔ (∀ j < f.after, mem (p.toNat + j) = buf j) ∧
            (f.pads = true → ∀ j, f.after ≤ j → j < n → mem (p.toNat + j) = 0))) ∧
    ∀ (δ : Type) [DecidableEq δ] (calls : List (DeviceCall δ)) (d : δ), ∀ k < 1024,
      lab.content calls d k = lastStored (calls.reverse.flatMap (·.stores)) d k ∧
      ((∀ c ∈ calls, c.Fails → c.FailsAtOnce) →
        lab.content calls d k = lastStored (calls.reverse.flatMap (·.successes)) d k) := by
  constructor
  · intro fault mem buf count p n r failed
    rw [show r = _ from lab.globalmem_write_eq ..] at failed ⊢
    have short := (globalmem_write_fails_iff fault mem buf count p).mp failed
    obtain ⟨bytes, left, _⟩ := globalmem_write_fault fault mem buf count p
    obtain ⟨f, faults, few, moved, rest, outside⟩ := failed_copy short mem buf p.toNat
    rw [← bytes] at moved rest outside
    refine ⟨(left short).2, f, faults, few, moved, rest, outside, fun same => ?_, ?_⟩
    · rw [same] at moved rest
      refine ⟨moved, fun pads j hj hn => ?_⟩
      have cleared := rest j hj hn
      rwa [if_pos pads] at cleared
    · rintro ⟨stood, zero⟩
      funext k
      by_cases window : k < p.toNat ∨ p.toNat + n ≤ k
      · exact outside k window
      obtain ⟨before, behind⟩ := not_or.mp window
      obtain ⟨j, rfl⟩ := Nat.exists_eq_add_of_le (Nat.not_lt.mp before)
      by_cases came : j < f.after
      · rw [moved j came, stood j came]
      rw [rest j (Nat.not_lt.mp came) (by omega)]
      split
      next pads => exact (zero pads j (Nat.not_lt.mp came) (by omega)).symm
      next => rfl
  · intro δ _ calls d k hk
    have stores := content_stores lab calls d k hk
    refine ⟨stores, fun atOnce => ?_⟩
    rw [stores, lastStored_successes fun c hc => atOnce c (List.mem_reverse.mp hc)]

/-- A write of two bytes that faults at the second returns `-EFAULT` and has stored the first,
whatever the kernel does about the second. -/
theorem failed_write_changes_device :
    let mem : Bytes := fun _ => 0
    let r (lab : Lab1) (pads : Bool) := lab.globalmem_write (some ⟨1, pads⟩) mem (fun _ => 7) 2 0
    let call (pads : Bool) : DeviceCall Unit :=
      .write () (some ⟨1, pads⟩) (fun _ => 7) 2 ⟨0, by decide⟩
    ∀ lab pads, (r lab pads).rval = (-EFAULT).toInt64 ∧ (r lab pads).bytes 0 = 7 ∧
      (r lab pads).bytes ≠ mem ∧ (call pads).successes = [] ∧
      lab.content [call pads] ≠ lab.content [] := by
  intro mem r call lab pads
  have stored : (r lab pads).bytes 0 = 7 := by cases lab <;> cases pads <;> decide
  refine ⟨by cases lab <;> cases pads <;> decide, stored, fun same => ?_,
    if_pos (by cases pads <;> decide), fun same => ?_⟩
  · have kept : (7 : UInt8) = 0 := stored.symm.trans (congrFun same 0)
    revert kept
    decide
  · have kept : (7 : UInt8) = 0 := stored.symm.trans (congrFun (congrFun same ()) 0)
    revert kept
    decide

end DeviceDriverEx
