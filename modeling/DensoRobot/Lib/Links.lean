import Mathlib.Logic.Function.Basic
import Mathlib.Data.List.Basic
import Mathlib.Algebra.Order.Ring.Nat

-- Lists that are linked by pointers, in a memory `cell` whose nodes have the fields `next` and
-- `prev`.

namespace Links

section

variable (next : ν → Option Nat)

-- Following `next` from the pointer `p` visits the nodes `xs`, and ends there.
inductive Chain (cell : Nat → Option ν) : (p : Option Nat) → (xs : List Nat) → Prop
  | nil : Chain cell none []
  | cons {x n xs} : cell x = some n → Chain cell (next n) xs → Chain cell (some x) (x :: xs)

end

namespace Chain

variable {next : ν → Option Nat} {cell cell' : Nat → Option ν}

theorem head_eq : Chain next cell p xs → p = xs.head?
  | nil      => rfl
  | cons _ _ => rfl

theorem unique : Chain next cell p xs → Chain next cell p ys → xs = ys
  | nil,      nil        => rfl
  | cons h c, cons h' c' => by
    cases h.symm.trans h'
    rw [c.unique c']

-- The node in the middle of a list.
theorem middle : {xs : List Nat} → {p : Option Nat} → Chain next cell p (xs ++ x :: ys) →
    ∃ n, cell x = some n ∧ Chain next cell (next n) ys
  | [],     _, cons h c => ⟨_, h, c⟩
  | _ :: _, _, cons _ c => c.middle

-- Only the links matter.
theorem congr (h : ∀ x ∈ xs, (cell' x).map next = (cell x).map next) :
    Chain next cell p xs → Chain next cell' p xs
  | nil       => nil
  | cons hx c => by
    have ⟨hx', h⟩ := List.forall_mem_cons.mp h
    rw [hx, Option.map_some] at hx'
    have ⟨n', hn', he⟩ := Option.map_eq_some_iff.mp hx'
    exact cons hn' (he ▸ c.congr h)

theorem isSome : Chain next cell p xs → ∀ x ∈ xs, (cell x).isSome
  | nil,      _, hm => absurd hm List.not_mem_nil
  | cons h c, x, hm => by
    cases List.mem_cons.mp hm
    case inl he => rw [he, h, Option.isSome_some]
    case inr hm => exact c.isSome x hm

end Chain

section

variable (next prev : ν → Option Nat)

-- A part of a doubly linked list: from the pointer `p`, which stands behind the node `b`, through
-- the nodes `xs` to the pointer `q`, which stands behind the node `l`.
inductive Seg (cell : Nat → Option ν) :
    (b p : Option Nat) → (xs : List Nat) → (l q : Option Nat) → Prop
  | nil {b p} : Seg cell b p [] b p
  | cons {b x n xs l q} : cell x = some n → prev n = b → Seg cell (some x) (next n) xs l q →
      Seg cell b (some x) (x :: xs) l q

end

namespace Seg

variable {next prev : ν → Option Nat} {cell cell' : Nat → Option ν}

theorem append : Seg next prev cell b p xs l q → Seg next prev cell l q ys b' q' →
    Seg next prev cell b p (xs ++ ys) b' q'
  | nil,          t => t
  | cons hn hp s, t => cons hn hp (s.append t)

theorem split : {xs : List Nat} → {b p : Option Nat} → Seg next prev cell b p (xs ++ ys) l q →
    ∃ l' q', Seg next prev cell b p xs l' q' ∧ Seg next prev cell l' q' ys l q
  | [],     _, _, s             => ⟨_, _, nil, s⟩
  | _ :: _, _, _, cons hn hp s =>
    have ⟨l', q', s₁, s₂⟩ := s.split
    ⟨l', q', cons hn hp s₁, s₂⟩

-- Only the links matter.
theorem congr (h : ∀ x ∈ xs, (cell' x).map next = (cell x).map next ∧
    (cell' x).map prev = (cell x).map prev) :
    Seg next prev cell b p xs l q → Seg next prev cell' b p xs l q
  | nil          => nil
  | cons hx hp s => by
    have ⟨⟨hx₁, hx₂⟩, h⟩ := List.forall_mem_cons.mp h
    rw [hx, Option.map_some] at hx₁ hx₂
    have ⟨n', hn', he⟩ := Option.map_eq_some_iff.mp hx₁
    rw [hn', Option.map_some, Option.some.injEq] at hx₂
    exact cons hn' (hx₂.trans hp) (he ▸ s.congr h)

theorem frame (h : ∀ x ∈ xs, cell' x = cell x) (s : Seg next prev cell b p xs l q) :
    Seg next prev cell' b p xs l q :=
  s.congr fun x hx => ⟨by rw [h x hx], by rw [h x hx]⟩

theorem frame_update (hx : x ∉ xs) (o : Option ν) (s : Seg next prev cell b p xs l q) :
    Seg next prev (Function.update cell x o) b p xs l q :=
  s.frame fun y hy => Function.update_of_ne (fun he : y = x => hx (he ▸ hy)) ..

theorem chain (s : Seg next prev cell b p xs l none) : Chain next cell p xs := by
  generalize hq : (none : Option Nat) = q at s
  induction s
  case nil => exact hq ▸ .nil
  case cons hn _ _ ih => exact .cons hn (ih hq)

theorem last_eq : Seg next prev cell b p xs l q → l = xs.getLast?.or b
  | nil        => rfl
  | cons _ _ s => by
    rw [s.last_eq, List.getLast?_cons]
    generalize List.getLast? _ = o
    cases o <;> rfl

theorem first_eq : Seg next prev cell b p xs l q → p = xs.head?.or q
  | nil        => rfl
  | cons _ _ _ => rfl

-- The node in the middle of a list.
theorem middle (s : Seg next prev cell b p (xs ++ x :: ys) l q) :
    ∃ n, cell x = some n ∧ Seg next prev cell b p xs (prev n) (some x) ∧
      Seg next prev cell (some x) (next n) ys l q := by
  have ⟨l', q', s₁, s₂⟩ := s.split
  match s₂ with
  | cons hn hp s₂ => exact ⟨_, hn, hp ▸ s₁, s₂⟩

-- A list gets another end.
theorem setNext (s : Seg next prev cell b p (xs ++ [x]) l q) (hx : x ∉ xs) (hc : cell x = some n)
    (hp : prev n' = prev n) :
    Seg next prev (Function.update cell x (some n')) b p (xs ++ [x]) (some x) (next n') := by
  have ⟨_, hn, s₁, _⟩ := s.middle
  cases hc.symm.trans hn
  exact (s₁.frame_update hx _).append (cons (Function.update_self ..) hp nil)

-- A list gets another node in front of it.
theorem setPrev (s : Seg next prev cell b p (x :: xs) l q) (hx : x ∉ xs) (hc : cell x = some n)
    (hn : next n' = next n) :
    Seg next prev (Function.update cell x (some n')) (prev n') p (x :: xs) l q := by
  match s with
  | cons hc' _ s =>
    cases hc.symm.trans hc'
    exact cons (Function.update_self ..) rfl (hn ▸ s.frame_update hx _)

end Seg
end Links
