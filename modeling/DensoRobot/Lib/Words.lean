import Mathlib.Tactic.Common
import Mathlib.Algebra.Order.Ring.Nat
import Mathlib.Algebra.BigOperators.Group.List.Basic

-- Machine integers, as the naturals (or integers) they denote.
-- An arithmetic operation on a word is the operation on numbers, followed by the reduction below.

def u8 (n : Nat) : Nat :=
  n % 256

def u16 (n : Nat) : Nat :=
  n % 65536

def u32 (n : Nat) : Nat :=
  n % 4294967296

def i32 (n : Nat) : Int :=
  if u32 n < 2147483648 then u32 n else (u32 n : Int) - 4294967296

-- The bits of a signed number, as the 32 bit word that a cast to `uint32_t` gives.
def wordOfInt (z : Int) : Nat :=
  (z % 4294967296).toNat

section

variable {n : Nat}

@[simp]
theorem u8_of_lt (h : n < 256) : u8 n = n :=
  Nat.mod_eq_of_lt h

@[simp]
theorem u16_of_lt (h : n < 65536) : u16 n = n :=
  Nat.mod_eq_of_lt h

@[simp]
theorem u32_of_lt (h : n < 4294967296) : u32 n = n :=
  Nat.mod_eq_of_lt h

theorem u16_lt : u16 n < 65536 :=
  Nat.mod_lt _ (by decide)

theorem u32_lt : u32 n < 4294967296 :=
  Nat.mod_lt _ (by decide)

theorem u16_le : u16 n ≤ n :=
  Nat.mod_le ..

theorem u32_le : u32 n ≤ n :=
  Nat.mod_le ..

theorem i32_eq_or (n : Nat) : i32 n = u32 n ∨ i32 n = (u32 n : Int) - 4294967296 := by
  by_cases h : u32 n < 2147483648
  case pos => exact .inl <| if_pos h
  case neg => exact .inr <| if_neg h

theorem i32_bounds (n : Nat) : -2147483648 ≤ i32 n ∧ i32 n < 2147483648 := by
  have hlt : u32 n < 4294967296 := u32_lt
  by_cases h : u32 n < 2147483648
  case pos =>
    rw [i32, if_pos h]
    omega
  case neg =>
    rw [i32, if_neg h]
    omega

theorem wordOfInt_lt (z : Int) : wordOfInt z < 4294967296 := by
  have := Int.emod_lt_of_pos z (show (0 : Int) < 4294967296 by decide)
  have := Int.emod_nonneg z (show (4294967296 : Int) ≠ 0 by decide)
  simp only [wordOfInt]
  omega

theorem i32_wordOfInt {z : Int} (hl : -2147483648 ≤ z) (hu : z < 2147483648) :
    i32 (wordOfInt z) = z := by
  rw [i32, u32_of_lt (wordOfInt_lt z), wordOfInt]
  by_cases hz : 0 ≤ z
  case pos => rw [if_pos (by omega)]; omega
  case neg => rw [if_neg (by omega)]; omega

end
