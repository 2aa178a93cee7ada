import DensoRobot.Lib.Run

-- Each step of a system that keeps an invariant is one of another system, or changes nothing that
-- the other system has.
structure Refines (Step : σ → α → σ → Prop) (Step' : τ → β → τ → Prop) (Inv : σ → Prop)
    (Ok : σ → α → Prop) (abs : σ → τ) : Prop where
  keep : Step s a s' → Ok s a → Inv s → Inv s'
  sim  : Step s a s' → Ok s a → Inv s → abs s' = abs s ∨ ∃ b, Step' (abs s) b (abs s')

namespace Refines

variable {Step : σ → α → σ → Prop} {Step' : τ → β → τ → Prop} {Inv : σ → Prop}
variable {Ok : σ → α → Prop} {abs : σ → τ}

-- A run of such steps is a run of the other system.
theorem run (h : Refines Step Step' Inv Ok abs) :
    Run Step s steps t → (∀ p ∈ steps, Ok p.1 p.2) → Inv s →
      Inv t ∧ ∃ steps', Run Step' (abs s) steps' (abs t)
  | .nil,       _,  i => ⟨i, [], .nil⟩
  | .cons st r, ok, i => by
    obtain ⟨ho, hos⟩ := List.forall_mem_cons.mp ok
    obtain ⟨it, steps', r'⟩ := h.run r hos (h.keep st ho i)
    cases h.sim st ho i
    case inl he => exact ⟨it, steps', he ▸ r'⟩
    case inr hs =>
      obtain ⟨b, st'⟩ := hs
      exact ⟨it, _, .cons st' r'⟩

end Refines
