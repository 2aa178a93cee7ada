import DensoRobot.Lib.Words

-- The integer types of a machine, and what the casts between them do.

structure IntType where
  bits   : Nat
  signed : Bool
  deriving DecidableEq, Repr

namespace IntType

def low (t : IntType) : Int :=
  if t.signed then -2 ^ (t.bits - 1) else 0

-- The lowest number that is too high.
def high (t : IntType) : Int :=
  if t.signed then 2 ^ (t.bits - 1) else 2 ^ t.bits

def InRange (t : IntType) (z : Int) : Prop :=
  t.low ≤ z ∧ z < t.high

instance (t : IntType) (z : Int) : Decidable (t.InRange z) :=
  inferInstanceAs (Decidable (_ ∧ _))

-- A cast keeps the lowest bits.
def wrap (t : IntType) (z : Int) : Int :=
  (z - t.low) % 2 ^ t.bits + t.low

-- The bits of a number of the type.
def word (t : IntType) (z : Int) : Nat :=
  (z % 2 ^ t.bits).toNat

def int16  : IntType := ⟨16, true⟩
def int32  : IntType := ⟨32, true⟩
def int64  : IntType := ⟨64, true⟩
def uint8  : IntType := ⟨8, false⟩
def uint16 : IntType := ⟨16, false⟩
def uint32 : IntType := ⟨32, false⟩
def uint64 : IntType := ⟨64, false⟩

section

variable {t : IntType} {z : Int}

theorem high_eq (h : 0 < t.bits) : t.high = t.low + 2 ^ t.bits := by
  cases hs : t.signed
  case false => simp [high, low, hs]
  case true =>
    have hp : (2 : Int) ^ t.bits = 2 * 2 ^ (t.bits - 1) := by
      rw [← Int.pow_succ', Nat.sub_add_cancel h]
    simp only [high, low, hs, if_true, hp]
    omega

theorem pow_pos (t : IntType) : (0 : Int) < 2 ^ t.bits :=
  Int.pow_pos (by decide)

theorem wrap_inRange (h : 0 < t.bits) (z : Int) : t.InRange (t.wrap z) := by
  have hl := Int.emod_nonneg (z - t.low) (Int.ne_of_gt t.pow_pos)
  have hu := Int.emod_lt_of_pos (z - t.low) t.pow_pos
  rw [InRange, high_eq h, wrap]
  omega

-- Casts do not change what is in range.
theorem wrap_of_inRange (h : 0 < t.bits) (hz : t.InRange z) : t.wrap z = z := by
  rw [InRange, high_eq h] at hz
  rw [wrap, Int.emod_eq_of_lt (by omega) (by omega)]
  omega

theorem wrap_emod (t : IntType) (z : Int) : t.wrap (z % 2 ^ t.bits) = t.wrap z := by
  rw [wrap, wrap, Int.emod_sub_emod]

theorem emod_wrap (t : IntType) (z : Int) : t.wrap z % 2 ^ t.bits = z % 2 ^ t.bits := by
  rw [wrap, Int.emod_add_emod, Int.sub_add_cancel]

-- A number is read back from its bits.
theorem wrap_word (t : IntType) (z : Int) : t.wrap (t.word z) = t.wrap z := by
  have hn := Int.emod_nonneg z (Int.ne_of_gt t.pow_pos)
  rw [word, Int.toNat_of_nonneg hn, wrap_emod]

-- The lowest bits are those of any larger type, too.
theorem word_wrap_of_le {t' : IntType} (h : t.bits ≤ t'.bits) (z : Int) :
    t.word (t'.wrap z) = t.word z := by
  have hd : (2 : Int) ^ t.bits ∣ 2 ^ t'.bits :=
    ⟨2 ^ (t'.bits - t.bits), by rw [← Int.pow_add, Nat.add_sub_cancel' h]⟩
  rw [word, word, wrap, Int.add_emod, Int.emod_emod_of_dvd _ hd, ← Int.add_emod, Int.sub_add_cancel]

theorem word_wrap (t : IntType) (z : Int) : t.word (t.wrap z) = t.word z :=
  word_wrap_of_le (Nat.le_refl _) z

end
end IntType
