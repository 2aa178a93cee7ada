import Mathlib.Data.List.Basic
import Mathlib.Algebra.Order.Ring.Nat
import Mathlib.Algebra.BigOperators.Group.List.Basic

-- Functions that are given a bound on the number of their steps.

-- From some bound on the result is always the same.
def Settles (f : Nat → α) (a : α) : Prop :=
  ∃ n, ∀ fuel, n ≤ fuel → f fuel = a

namespace Settles

variable {f : Nat → α} {a b : α}

theorem of_forall (h : ∀ fuel, f fuel = a) : Settles f a :=
  ⟨0, fun fuel _ => h fuel⟩

-- One step more may be taken.
theorem step {g : Nat → α} (h : Settles g a) (hf : ∀ fuel, f (fuel + 1) = g fuel) :
    Settles f a := by
  obtain ⟨n, hn⟩ := h
  refine ⟨n + 1, fun fuel hl => ?_⟩
  cases fuel
  case zero      => contradiction
  case succ fuel => exact (hf fuel).trans <| hn fuel (Nat.le_of_succ_le_succ hl)

theorem unique (h : Settles f a) (h' : Settles f b) : a = b := by
  obtain ⟨n, hn⟩ := h
  obtain ⟨m, hm⟩ := h'
  exact (hn (max n m) (Nat.le_max_left n m)).symm.trans <| hm _ (Nat.le_max_right n m)

-- What comes before and what comes after are given the same bound.
theorem after {g : Nat → β} {f' : Nat → α} {b : β} (h : Settles g b) (h' : Settles f' a)
    (hf : ∀ fuel, g fuel = b → f (fuel + 1) = f' fuel) : Settles f a := by
  obtain ⟨n, hn⟩ := h
  obtain ⟨m, hm⟩ := h'
  refine ⟨max n m + 1, fun fuel hl => ?_⟩
  cases fuel
  case zero => contradiction
  case succ fuel =>
    have hl := Nat.le_of_succ_le_succ hl
    exact (hf fuel <| hn fuel (Nat.le_trans (Nat.le_max_left n m) hl)).trans <|
      hm fuel (Nat.le_trans (Nat.le_max_right n m) hl)

-- The same with two parts that come before.
theorem after_both {g : Nat → β} {g' : Nat → γ} {b : β} {c : γ} (h : Settles g b)
    (h' : Settles g' c) (hf : ∀ fuel, g fuel = b → g' fuel = c → f (fuel + 1) = a) :
    Settles f a := by
  obtain ⟨n, hn⟩ := h
  obtain ⟨m, hm⟩ := h'
  refine ⟨max n m + 1, fun fuel hl => ?_⟩
  cases fuel
  case zero => contradiction
  case succ fuel =>
    have hl := Nat.le_of_succ_le_succ hl
    exact hf fuel (hn fuel (Nat.le_trans (Nat.le_max_left n m) hl))
      (hm fuel (Nat.le_trans (Nat.le_max_right n m) hl))

end Settles
