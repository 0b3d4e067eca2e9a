import DeviceDriverEx.CInt

namespace DeviceDriverEx

/-- The kernel's counter of clock ticks, which runs over. -/
def jiffies (now : Nat) : UInt64 := UInt64.ofNat now

/-- `time_after_eq`: the sign of the difference tells which of two readings is the later. -/
def time_after_eq (a b : UInt64) : Prop := 0 ≤ (a - b).toInt64

instance (a b : UInt64) : Decidable (time_after_eq a b) :=
  inferInstanceAs (Decidable (0 ≤ (a - b).toInt64))

/-- The difference of two readings is the time between them, however often the counter ran over,
up to what an `unsigned long` holds. -/
theorem jiffies_sub {since now : Nat} (le : since ≤ now) :
    jiffies now - jiffies since = UInt64.ofNat (now - since) :=
  (UInt64.ofNat_sub le).symm

/-- A time that was at most half the counter's range ahead is not taken to have come early. -/
theorem elapsed_of_after_eq {t now : Nat} {delay : UInt64} (set : t ≤ now)
    (near : delay.toNat ≤ 2 ^ 63) (due : time_after_eq (jiffies now) (delay + jiffies t)) :
    t + delay.toNat ≤ now := by
  by_contra early
  obtain ⟨ahead, split⟩ : ∃ ahead, t + delay.toNat = now + ahead :=
    Nat.exists_eq_add_of_le (by omega)
  have expires : delay + jiffies t = jiffies now + UInt64.ofNat ahead := by
    rw [jiffies, jiffies, ← UInt64.ofNat_add, ← split, UInt64.ofNat_add, UInt64.ofNat_toNat,
      UInt64.add_comm]
  have behind : jiffies now - (delay + jiffies t) = -UInt64.ofNat ahead := by
    rw [expires]
    grind
  have back : (-UInt64.ofNat ahead).toNat = 2 ^ 64 - ahead := by
    rw [UInt64.toNat_neg, UInt64.toNat_ofNat_of_lt' (by change _ < 2 ^ 64; omega)]
    exact Nat.mod_eq_of_lt (by change 2 ^ 64 - ahead < 2 ^ 64; omega)
  have sign : 0 ≤ (-UInt64.ofNat ahead).toInt64.toInt := by
    rw [← behind]
    exact Int64.le_iff_toInt_le.mp due
  change 0 ≤ (-UInt64.ofNat ahead).toBitVec.toInt at sign
  rw [BitVec.toInt_eq_toNat_cond, UInt64.toNat_toBitVec, back] at sign
  split at sign <;> omega

end DeviceDriverEx
