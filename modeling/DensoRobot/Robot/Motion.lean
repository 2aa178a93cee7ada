import DensoRobot.Common.Hresult

open HRESULT

namespace Robot

-- The values of `m_curAct`.
inductive Act
  | reset
  | none
  | moveString
  | moveValue
  | driveExString
  | driveExValue
  | driveAExString
  | driveAExValue
  deriving DecidableEq, Repr

namespace Act

def code : Act → Int
  | reset          => -1
  | none           => 0
  | moveString     => 1
  | moveValue      => 2
  | driveExString  => 3
  | driveExValue   => 4
  | driveAExString => 5
  | driveAExValue  => 6

-- m_curAct > ACT_NONE
abbrev Moving (act : Act) : Prop :=
  0 < act.code

theorem not_moving_none : ¬none.Moving := by
  decide

theorem moving_iff {act : Act} : act.Moving ↔ act ≠ none ∧ act ≠ reset := by
  cases act <;> decide

end Act

-- The kind of a goal, for which `m_curAct` stands while the goal's command is executed.
structure Kind where
  act    : Act
  moving : act.Moving
  deriving DecidableEq

namespace Kind

def moveString     : Kind := ⟨.moveString, by decide⟩
def moveValue      : Kind := ⟨.moveValue, by decide⟩
def driveExString  : Kind := ⟨.driveExString, by decide⟩
def driveExValue   : Kind := ⟨.driveExValue, by decide⟩
def driveAExString : Kind := ⟨.driveAExString, by decide⟩
def driveAExValue  : Kind := ⟨.driveAExValue, by decide⟩

end Kind

-- How far the thread of a goal, such as `Callback_MoveString`, has come.
inductive Worker
  | accepted
  | stored
  | running
  | returned (hr : HRESULT)
  | done
  deriving DecidableEq, Repr

-- The worker has set `m_curAct` and has not left its final critical section.
def Worker.Active : Worker → Prop
  | running | returned _ => True
  | _ => False

instance : DecidablePred Worker.Active
  | .running | .returned _ => isTrue trivial
  | .accepted | .stored | .done => isFalse id

-- How far the cancel handler of a goal, such as `Callback_MoveStringHandleCancel`, has come.
inductive Handler
  | idle
  | halted
  | released
  | reported
  deriving DecidableEq, Repr

-- A terminal report of a goal, with its `hresult` if one is set.
inductive Report
  | succeed (hresult : HRESULT)
  | abort (hresult : HRESULT)
  | canceled
  deriving DecidableEq, Repr

structure Goal where
  kind    : Kind
  worker  : Worker
  cancel  : Handler
  reports : List Report
  deriving DecidableEq

namespace Goal

def accepted (kind : Kind) : Goal where
  kind    := kind
  worker  := .accepted
  cancel  := .idle
  reports := []

-- The critical sections of `m_mtxAct` are taken for one step each, since `m_curAct` is tested and
-- set in them only, and what a cancel handler does to it can be ordered before or after them.
def enter (curAct : Act) (g : Goal) : Option (Act × Goal) :=
  if g.worker = .stored then
    if curAct ≠ .none then
      if curAct ≠ .reset then
        some (curAct, { g with worker := .done, reports := g.reports ++ [.abort eFail] })
      else
        some (curAct, { g with worker := .done })
    else
      some (g.kind.act, { g with worker := .running })
  else
    none

-- `ExecMove` or `ExecDrive` returns.
def command (hr : HRESULT) (curAct : Act) (g : Goal) : Option (Act × Goal) :=
  if g.worker = .running then some (curAct, { g with worker := .returned hr }) else none

def result (hr : HRESULT) : Report :=
  if Succeeded hr then .succeed sOk else .abort hr

def leave (curAct : Act) (g : Goal) : Option (Act × Goal) :=
  match g.worker with
  | .returned hr =>
    if curAct = g.kind.act then
      some (.none, { g with worker := .done, reports := g.reports ++ [result hr] })
    else
      some (curAct, { g with worker := .done })
  | _ => none

-- A goal can be canceled until it is reported on.
def halt (curAct : Act) (g : Goal) : Option (Act × Goal) :=
  if g.cancel = .idle ∧ g.reports = [] then some (curAct, { g with cancel := .halted }) else none

def release (g : Goal) : Option (Act × Goal) :=
  if g.cancel = .halted then some (.none, { g with cancel := .released }) else none

def canceled (curAct : Act) (g : Goal) : Option (Act × Goal) :=
  if g.cancel = .released then
    some (curAct, { g with cancel := .reported, reports := g.reports ++ [.canceled] })
  else
    none

end Goal

-- The state that the motion actions share, with the goals in the order of their acceptance.
-- `handles` are the members such as `m_actMoveStringGoalHandle`.
structure Motion where
  curAct  : Act
  handles : Act → Option Nat
  goals   : List Goal

inductive Action
  | accept (kind : Kind)
  | store (i : Nat)
  | enter (i : Nat)
  | command (i : Nat) (hr : HRESULT)
  | leave (i : Nat)
  | halt (i : Nat)
  | release (i : Nat)
  | canceled (i : Nat)
  | cancel

namespace Motion

-- The state after `StartService`.
def started : Motion where
  curAct  := .none
  handles := fun _ => none
  goals   := []

-- A step of the `i`-th goal.
def on (s : Motion) (i : Nat) (f : Act → Goal → Option (Act × Goal)) : Option Motion := do
  let g ← s.goals[i]?
  let (curAct, g) ← f s.curAct g
  return { s with curAct, goals := s.goals.set i g }

def store (i : Nat) (s : Motion) : Option Motion := do
  let g ← s.goals[i]?
  if g.worker = .accepted then
    return { s with
      handles := fun act => if act = g.kind.act then some i else s.handles act
      goals   := s.goals.set i { g with worker := .stored } }
  else
    none

-- `Callback_Cancel`
def cancel (s : Motion) : Motion :=
  if s.curAct.Moving then { s with curAct := .none } else s

def step (s : Motion) : Action → Option Motion
  | .accept kind  => some { s with goals := s.goals ++ [.accepted kind] }
  | .store i      => s.store i
  | .enter i      => s.on i Goal.enter
  | .command i hr => s.on i (Goal.command hr)
  | .leave i      => s.on i Goal.leave
  | .halt i       => s.on i Goal.halt
  | .release i    => s.on i fun _ => Goal.release
  | .canceled i   => s.on i Goal.canceled
  | .cancel       => some s.cancel

-- The goal handle that `Action_Feedback` publishes to, where `hr` is the result of `ExecCurJnt`.
-- The function holds `m_mtxAct`, so that `m_curAct` is the same from the test on, and reads the
-- handle when it publishes.
def actionFeedback (hr : HRESULT) (s : Motion) : Option (Option Nat) :=
  if s.curAct.Moving ∧ Succeeded hr then some (s.handles s.curAct) else none

end Motion
end Robot
