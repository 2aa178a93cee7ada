import DensoRobot.Common.Variant

-- The reading of the clock at the time `t`.
def gettimeofdayMsec (t : Nat) : Nat :=
  u32 t

-- A macro that calculates the time difference between `start` and `end`, which are readings of
-- `gettimeofday_msec`. The type of all of it is `uint32_t`.
def calcTimeDiff (start «end» : Nat) : Nat :=
  if start ≤ «end» then «end» - start else u32 ((4294967295 - «end») + start)

-- The clock does not start anew between two times.
def SameEpoch (t₀ t₁ : Nat) : Prop :=
  t₀ / 4294967296 = t₁ / 4294967296

section

variable {t₀ t₁ : Nat}

theorem calcTimeDiff_same (h : SameEpoch t₀ t₁) (hle : t₀ ≤ t₁) :
    calcTimeDiff (gettimeofdayMsec t₀) (gettimeofdayMsec t₁) = t₁ - t₀ := by
  rw [SameEpoch] at h
  have hstart : gettimeofdayMsec t₀ ≤ gettimeofdayMsec t₁ := by
    simp only [gettimeofdayMsec, u32]
    omega
  rw [calcTimeDiff, if_pos hstart]
  simp only [gettimeofdayMsec, u32]
  omega

-- The two terms of the difference are exchanged.
theorem calcTimeDiff_other (h : ¬SameEpoch t₀ t₁) (hle : t₀ ≤ t₁) (hlt : t₁ < t₀ + 4294967296) :
    calcTimeDiff (gettimeofdayMsec t₀) (gettimeofdayMsec t₁) = 4294967295 - (t₁ - t₀) := by
  rw [SameEpoch] at h
  have hstart : ¬gettimeofdayMsec t₀ ≤ gettimeofdayMsec t₁ := by
    simp only [gettimeofdayMsec, u32]
    omega
  rw [calcTimeDiff, if_neg hstart]
  simp only [gettimeofdayMsec, u32]
  omega

theorem calcTimeDiff_eq_iff (hle : t₀ ≤ t₁) (hlt : t₁ < t₀ + 4294967296) :
    calcTimeDiff (gettimeofdayMsec t₀) (gettimeofdayMsec t₁) = t₁ - t₀ ↔ SameEpoch t₀ t₁ := by
  constructor
  case mp =>
    intro h
    apply Classical.byContradiction
    intro hother
    rw [calcTimeDiff_other hother hle hlt] at h
    -- The right difference and the one above add up to an odd number.
    omega
  case mpr => exact fun h => calcTimeDiff_same h hle

end
