import Mathlib

/-!
# The time base (`v9p_read_tb`, `v9p_tb_freq_hz`)

The processor has a 64-bit counter of ticks, and reads it as two halves of 32 bits. `Timebase` is the counter at the
time of each instruction; any time may pass between two of them, except that the counter does not get near to its end.

* `readTb_eq`: what `v9p_read_tb` returns is a value that the counter had during the call, although the halves are read
  one after the other.
* `readTb_returns`: it does not read more than twice, if the low half does not wrap twice meanwhile.
-/

namespace Virtio9P

/-- The counter, by the number of the instruction. -/
structure Timebase where
  ticks : Nat → UInt64
  mono : ∀ {s t}, s ≤ t → ticks s ≤ ticks t
  /-- at 4 GHz it takes 73 years to get there -/
  early : ∀ t, (ticks t).toNat < 2 ^ 63

namespace Timebase

variable (tb : Timebase)

/-- `mftbu`: the upper half. -/
def upper (t : Nat) : UInt32 := (tb.ticks t >>> 32).toUInt32

/-- `mftb`: the lower half. -/
def lower (t : Nat) : UInt32 := (tb.ticks t).toUInt32

/-- `v9p_read_tb`, starting with instruction `t`: the value, and the number of the next instruction. Not more than
`rounds` rounds are made. -/
def v9pReadTb : Nat → Nat → Option (UInt64 × Nat)
  | 0, _ => none
  | rounds + 1, t =>
    let hi := tb.upper t
    let lo := tb.lower (t + 1)
    let hi2 := tb.upper (t + 2)
    if hi ≠ hi2 then v9pReadTb rounds (t + 3) else some (hi.toUInt64 <<< 32 ||| lo.toUInt64, t + 3)

/-- Six instructions take less than `2 ^ 32` ticks. -/
def Steady : Prop := ∀ t, (tb.ticks (t + 5)).toNat < (tb.ticks t).toNat + 2 ^ 32

end Timebase

/-- `v9p_tb_freq_hz`: the frequency that the system reports, if it makes sense. -/
def v9pTbFreqHz (speed : UInt64) : UInt32 :=
  if speed = 0 ∨ speed > 0xFFFFFFFF then 33000000 else speed.toUInt32

section Read

variable {tb : Timebase}

theorem upper_toNat (t : Nat) : (tb.upper t).toNat = (tb.ticks t).toNat / 2 ^ 32 := by
  have hlt := (tb.ticks t).toNat_lt
  rw [Timebase.upper, UInt64.toNat_toUInt32, UInt64.toNat_shiftRight, Nat.shiftRight_eq_div_pow]
  show (tb.ticks t).toNat / 2 ^ 32 % 2 ^ 32 = _
  omega

theorem lower_toNat (t : Nat) : (tb.lower t).toNat = (tb.ticks t).toNat % 2 ^ 32 := UInt64.toNat_toUInt32 ..

/-- Two halves make the whole. -/
theorem halves_toNat (hi lo : UInt32) :
    (hi.toUInt64 <<< 32 ||| lo.toUInt64).toNat = hi.toNat * 2 ^ 32 + lo.toNat := by
  have hlo := lo.toNat_lt
  have hhi := hi.toNat_lt
  rw [UInt64.toNat_or, UInt64.toNat_shiftLeft, UInt32.toNat_toUInt64, UInt32.toNat_toUInt64]
  show hi.toNat <<< 32 % 2 ^ 64 ||| lo.toNat = _
  rw [Nat.shiftLeft_eq, Nat.mod_eq_of_lt (by omega), Nat.mul_comm, Nat.two_pow_add_eq_or_of_lt hlo]

/-- One round: when the upper half is the same before and after, the halves belong together. -/
theorem round_eq {t : Nat} (h : tb.upper t = tb.upper (t + 2)) :
    (tb.upper t).toUInt64 <<< 32 ||| (tb.lower (t + 1)).toUInt64 = tb.ticks (t + 1) := by
  have hle₁ : (tb.ticks t).toNat ≤ (tb.ticks (t + 1)).toNat := UInt64.le_iff_toNat_le.mp (tb.mono (Nat.le_succ t))
  have hle₂ : (tb.ticks (t + 1)).toNat ≤ (tb.ticks (t + 2)).toNat := UInt64.le_iff_toNat_le.mp (tb.mono (Nat.le_succ _))
  have hupper : (tb.ticks t).toNat / 2 ^ 32 = (tb.ticks (t + 2)).toNat / 2 ^ 32 := by
    rw [← upper_toNat, ← upper_toNat, h]
  apply UInt64.toNat.inj
  rw [halves_toNat, upper_toNat, lower_toNat]
  omega

theorem readTb_same {t : Nat} (h : tb.upper t = tb.upper (t + 2)) (rounds : Nat) :
    tb.v9pReadTb (rounds + 1) t = some (tb.ticks (t + 1), t + 3) := by
  rw [← round_eq h]
  exact if_neg (not_not.mpr h)

/-- **The value read is one that the counter had.** -/
theorem readTb_eq {rounds t t' : Nat} {v : UInt64} (h : tb.v9pReadTb rounds t = some (v, t')) :
    ∃ k, t < k ∧ k < t' ∧ v = tb.ticks k := by
  induction rounds generalizing t with
  | zero => cases h
  | succ rounds ih =>
    simp only [Timebase.v9pReadTb] at h
    split at h
    · obtain ⟨k, hk, hk', hv⟩ := ih h
      exact ⟨k, by omega, hk', hv⟩
    · rename_i heq
      cases h
      exact ⟨t + 1, by omega, by omega, round_eq (not_not.mp heq)⟩

/-- The upper half changes in one of two rounds only. -/
theorem readTb_returns (hsteady : tb.Steady) {rounds : Nat} (hrounds : 2 ≤ rounds) (t : Nat) :
    ∃ v t', tb.v9pReadTb rounds t = some (v, t') ∧ t' ≤ t + 6 := by
  obtain ⟨rounds, rfl⟩ := Nat.exists_eq_add_of_le' hrounds
  show ∃ v t', tb.v9pReadTb (rounds + 1 + 1) t = some (v, t') ∧ t' ≤ t + 6
  by_cases hfirst : tb.upper t = tb.upper (t + 2)
  · exact ⟨tb.ticks (t + 1), t + 3, readTb_same hfirst _, by omega⟩
  · have hsecond : tb.upper (t + 3) = tb.upper (t + 3 + 2) := by
      have hne : (tb.ticks t).toNat / 2 ^ 32 ≠ (tb.ticks (t + 2)).toNat / 2 ^ 32 := by
        rw [← upper_toNat, ← upper_toNat]
        exact fun heq => hfirst (UInt32.toNat.inj heq)
      have hle₁ : (tb.ticks t).toNat ≤ (tb.ticks (t + 2)).toNat := UInt64.le_iff_toNat_le.mp (tb.mono (by omega))
      have hle₂ : (tb.ticks (t + 2)).toNat ≤ (tb.ticks (t + 3)).toNat := UInt64.le_iff_toNat_le.mp (tb.mono (by omega))
      have hle₃ : (tb.ticks (t + 3)).toNat ≤ (tb.ticks (t + 5)).toNat := UInt64.le_iff_toNat_le.mp (tb.mono (by omega))
      have hbound := hsteady t
      apply UInt32.toNat.inj
      rw [upper_toNat, upper_toNat]
      show (tb.ticks (t + 3)).toNat / 2 ^ 32 = (tb.ticks (t + 5)).toNat / 2 ^ 32
      omega
    exact ⟨tb.ticks (t + 3 + 1), t + 3 + 3, (if_pos hfirst).trans (readTb_same hsecond _), le_rfl⟩

theorem readTb_later {rounds t t' : Nat} {v : UInt64} (h : tb.v9pReadTb rounds t = some (v, t')) : t + 3 ≤ t' := by
  induction rounds generalizing t with
  | zero => cases h
  | succ rounds ih =>
    simp only [Timebase.v9pReadTb] at h
    split at h
    · exact le_trans (by omega) (ih h)
    · cases h
      exact le_rfl

end Read

/-- A deadline some seconds from now. -/
def deadlineTb (now : UInt64) (speed : UInt64) (seconds : UInt64) : UInt64 :=
  now + (v9pTbFreqHz speed).toUInt64 * seconds

theorem deadlineTb_toNat (tb : Timebase) (k : Nat) (speed : UInt64) {seconds : UInt64} (hs : seconds.toNat ≤ 10) :
    (deadlineTb (tb.ticks k) speed seconds).toNat =
      (tb.ticks k).toNat + (v9pTbFreqHz speed).toNat * seconds.toNat := by
  have hearly := tb.early k
  have hfreq := (v9pTbFreqHz speed).toNat_lt
  have hmul : (v9pTbFreqHz speed).toNat * seconds.toNat ≤ 2 ^ 32 * 10 := Nat.mul_le_mul hfreq.le hs
  rw [deadlineTb, UInt64.toNat_add, UInt64.toNat_mul, UInt32.toNat_toUInt64]
  rw [Nat.mod_eq_of_lt (b := 2 ^ 64) (by omega), Nat.mod_eq_of_lt (by omega)]

end Virtio9P
