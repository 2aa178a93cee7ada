-- An event object, which threads wait for with a condition variable.
structure Event (τ : Type) where
  -- Whether the event is reset by `reset_event` only.
  mode   : Bool
  signal : Bool
  -- The threads that wait for the condition variable and have not been woken.
  asleep : List τ

namespace Event

variable (t : τ) (e : Event τ)

def create (resetMode initSignal : Bool) : Event τ :=
  ⟨resetMode, initSignal, []⟩

-- pthread_cond_broadcast(&pevt->cond);
-- pevt->signal = 1;
def set : Event τ :=
  { e with signal := true, asleep := [] }

def reset : Event τ :=
  { e with signal := false }

-- A thread falls asleep in `wait_event`, as the event is not set.
def sleep : Event τ :=
  { e with asleep := t :: e.asleep }

-- A thread is not asleep any more, for any reason.
def rouse [DecidableEq τ] : Event τ :=
  { e with asleep := e.asleep.filter (· ≠ t) }

-- How `wait_event` ends if it has not timed out.
def take : Event τ :=
  if e.mode then e else { e with signal := false }

variable {t : τ} {e : Event τ}

@[simp, grind =]
theorem mode_take : e.take.mode = e.mode := by
  rw [take]
  split <;> rfl

@[simp, grind =]
theorem asleep_take : e.take.asleep = e.asleep := by
  rw [take]
  split <;> rfl

-- An event that is reset by hand stays set.
@[grind →]
theorem take_of_mode (h : e.mode = true) : e.take = e :=
  if_pos h

@[grind →]
theorem signal_take_of_mode (h : e.mode = false) : e.take.signal = false := by
  rw [take, if_neg (by simp [h])]

attribute [grind =] create set reset sleep rouse

end Event
