import DensoRobot.Common.Clock
import DensoRobot.Common.Hresult

open HRESULT

namespace Bcap

-- One turn of the loop in which `receive_execute` waits until a callback has completed: what
-- `wait_event` returns, what `bcap_send` returns for `S_EXECUTING`, and the time of the check.
structure WaitTurn where
  waitEvent : HRESULT
  bcapSend  : HRESULT
  time      : Nat

-- How the loop ends.
inductive Waited
  | completed (hr : HRESULT)
  | unsent (hr : HRESULT)
  | timedOut

def Waited.hr : Waited → HRESULT
  | completed hr => hr
  | unsent hr    => hr
  | timedOut     => eTimeout

-- The loop after the given turns, which ends in the last one of them unless it goes on.
def waitCompletion (start execTimeout : Nat) : List WaitTurn → Option Waited
  | []            => none
  | turn :: turns =>
    if Succeeded turn.waitEvent then
      some <| .completed turn.waitEvent
    else if Failed turn.bcapSend then
      some <| .unsent turn.bcapSend
    else
      let diff := calcTimeDiff (gettimeofdayMsec start) (gettimeofdayMsec turn.time)
      if execTimeout < diff then
        some .timedOut
      else
        waitCompletion start execTimeout turns

end Bcap
