-- The runs of a transition system, each with its steps: the state before the step and the action.
inductive Run (Step : σ → α → σ → Prop) : σ → List (σ × α) → σ → Prop
  | nil  : Run Step s [] s
  | cons : Step s a s' → Run Step s' steps t → Run Step s ((s, a) :: steps) t

-- A property holds in all states of a run that ends in `t`.
def Always (P : σ → Prop) (steps : List (σ × α)) (t : σ) : Prop :=
  (∀ p ∈ steps, P p.1) ∧ P t

namespace Run

variable {Step : σ → α → σ → Prop} {Inv : σ → Prop} {Ok : σ → α → Prop}

theorem trans : Run Step s steps t → Run Step t steps' u → Run Step s (steps ++ steps') u
  | nil,      r' => r'
  | cons h r, r' => cons h (r.trans r')

-- What each step of a kind keeps is kept by all runs of such steps.
theorem preserves (keep : ∀ {s a s'}, Step s a s' → Ok s a → Inv s → Inv s') :
    Run Step s steps t → (∀ p ∈ steps, Ok p.1 p.2) → Inv s → Inv t
  | nil,      _,  i => i
  | cons h r, ok, i =>
    have ⟨ho, ok⟩ := List.forall_mem_cons.mp ok
    preserves keep r ok (keep h ho i)

end Run

-- The steps that meet `Ok` are those after which a state is good, as long as the states before them
-- have been. `Inv` is what a run of such steps maintains.
structure Exact (Step : σ → α → σ → Prop) (Inv Good : σ → Prop) (Ok : σ → α → Prop) : Prop where
  good : Inv s → Good s
  keep : Step s a s' → Ok s a → Inv s → Inv s'
  need : Step s a s' → Inv s → Good s' → Ok s a

namespace Exact

variable {Step : σ → α → σ → Prop} {Inv Good : σ → Prop} {Ok : σ → α → Prop}

theorem head_good (e : Exact Step Inv Good Ok) (i : Inv s) :
    Always Good ((s, a) :: steps) t ↔ Always Good steps t := by
  simp [Always, e.good i]

theorem good_of_always : Run Step s steps t → Always Good steps t → Good s
  | .nil,      h => h.2
  | .cons _ _, h => h.1 _ List.mem_cons_self

-- All states of a run are good iff all of its steps meet the condition.
theorem always_iff (e : Exact Step Inv Good Ok) :
    Run Step s steps t → Inv s → (Always Good steps t ↔ ∀ p ∈ steps, Ok p.1 p.2)
  | .nil,      i => by simp [Always, e.good i]
  | .cons h r, i => by
    rw [e.head_good i, List.forall_mem_cons]
    constructor
    case mp =>
      intro g
      have ok := e.need h i (good_of_always r g)
      exact ⟨ok, e.always_iff r (e.keep h ok i) |>.mp g⟩
    case mpr =>
      intro ⟨ok, oks⟩
      exact e.always_iff r (e.keep h ok i) |>.mpr oks

end Exact
