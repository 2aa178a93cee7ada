import Mathlib.Data.List.Basic

-- States to which values are stored one after another.

namespace Stores

variable {ι σ : Type} {store : ι → σ → σ} {a : ι} {as : List ι} {s : σ}

def storeAll (store : ι → σ → σ) (as : List ι) (s : σ) : σ :=
  as.foldl (fun s a => store a s) s

-- The order of stores is irrelevant, as long as they are different.
def Independent (store : ι → σ → σ) (a b : ι) : Prop :=
  ∀ s, store a (store b s) = store b (store a s)

def Idempotent (store : ι → σ → σ) (a : ι) : Prop :=
  ∀ s, store a (store a s) = store a s

-- A state has what would be stored already.
def Holds (store : ι → σ → σ) (a : ι) (s : σ) : Prop :=
  store a s = s

theorem store_storeAll (h : ∀ b ∈ as, Independent store a b) (s : σ) :
    store a (storeAll store as s) = storeAll store as (store a s) := by
  induction as generalizing s
  case nil => rfl
  case cons b as ih =>
    obtain ⟨hb, has⟩ := List.forall_mem_cons.mp h
    simp only [storeAll, List.foldl_cons] at ih ⊢
    rw [ih has, hb]

-- All that was stored is there in the end.
theorem holds_storeAll (hi : ∀ b ∈ as, Idempotent store b) (hp : as.Pairwise (Independent store))
    (ha : a ∈ as) : Holds store a (storeAll store as s) := by
  induction as generalizing s
  case nil => contradiction
  case cons b as ih =>
    obtain ⟨hib, hia⟩ := List.forall_mem_cons.mp hi
    obtain ⟨hpb, hpa⟩ := List.pairwise_cons.mp hp
    cases List.mem_cons.mp ha
    case inr hm => exact ih hia hpa hm
    case inl he =>
      subst he
      have hs : store a (storeAll store as (store a s)) = storeAll store as (store a s) := by
        rw [store_storeAll hpb, hib]
      exact hs

theorem storeAll_of_holds (h : ∀ b ∈ as, Holds store b s) : storeAll store as s = s := by
  induction as
  case nil => rfl
  case cons b as ih =>
    obtain ⟨hb, has⟩ := List.forall_mem_cons.mp h
    have hs : storeAll store (b :: as) s = storeAll store as (store b s) := rfl
    rw [hs, hb, ih has]

-- Storing changes nothing iff all is there already.
theorem storeAll_eq_self_iff (hi : ∀ b ∈ as, Idempotent store b)
    (hp : as.Pairwise (Independent store)) :
    storeAll store as s = s ↔ ∀ b ∈ as, Holds store b s := by
  constructor
  case mp =>
    intro h b hb
    have hh := holds_storeAll (s := s) hi hp hb
    rwa [h] at hh
  case mpr => exact storeAll_of_holds

end Stores
