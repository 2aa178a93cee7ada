import DensoRobot.Lib.Ledger
import DensoRobot.Service.FuncId
import DensoRobot.Bcap.Execution
import DensoRobot.Bcap.ObjectVector

open HRESULT

namespace Bcap

-- The relation IDs of `m_map_id`.
def mapId : List Int := [
  0, idServiceStop, -1, idControllerDisconnect, -1, idExtensionRelease, idFileRelease,
  idRobotRelease, idTaskRelease, idVariableRelease, idCommandRelease, 0, 0, 0, 0, 0, 0, 0,
  idMessageRelease, 0, 0, 0, 0, 0, 0, 0, idVariableRelease, 0, 0, 0, 0, 0, 0, 0, 0, 0, -1,
  idFileRelease, idVariableRelease, 0, 0, 0, 0, 0, 0, 0, 0, 0, 0, 0, 0, 0, 0, 0, 0, 0, 0, 0, 0, 0,
  0, -1, idVariableRelease, 0, 0, 0, 0, 0, 0, 0, 0, 0, 0, 0, 0, 0, 0, 0, 0, 0, 0, 0, 0, 0, -1,
  idVariableRelease, 0, 0, 0, 0, 0, 0, 0, 0, 0, 0, 0, 0, 0, -1, 0, 0, 0, 0, 0, 0, 0, 0, 0, 0, 0,
  -1, 0, 0, 0, 0, 0, 0, 0, 0, 0, 0, 0, 0, 0, 0, 0, -1, 0, 0, 0, 0, 0, 0, 0, 0, 0, -1]

def functionIdMax : Int := 138

-- m_map_id[id].relation_id
def relationId (id : Int) : Exec Int :=
  if 0 ≤ id then
    match mapId[id.toNat]? with
    | some relation => pure relation
    | none          => throw .read
  else
    throw .read

-- The requests for which `receive_execute` checks the number of objects.
def creatingIds : List Int := [
  idServiceStart, idControllerConnect, idControllerGetextension, idControllerGetfile, idFileGetfile,
  idControllerGetrobot, idControllerGettask, idControllerGetvariable, idExtensionGetvariable,
  idFileGetvariable, idRobotGetvariable, idTaskGetvariable, idControllerGetcommand,
  idControllerGetmessage]

-- if (pObj != NULL) free(pObj);
def freeObject (pObj : Option Nat) (s : ObjectVector) : Exec ObjectVector :=
  match pObj with
  | some p => do return { s with memory := ← s.memory.free p }
  | none   => pure s

-- The objects that the exit loop of `recv_thread` passes to their callbacks, with the IDs of these.
def releaseAll (listed : Int → Bool) : (fuel : Nat) → ObjectVector → Exec (List (Int × Nat))
  | 0,        _ => throw .fuel
  | fuel + 1, s => do
    let (hr, pObj, s) ← popVector 0 s
    if Failed hr then
      return []
    match pObj with
    | none   => throw .read
    | some p =>
      let o ← s.memory.load p
      let calls ← releaseAll listed fuel (← freeObject pObj s)
      return if listed o.id then (o.id, o.hObj) :: calls else calls

-- The receiving thread of a server and its executing thread, as far as created objects go.
namespace Receiver

-- `arg` is `args[0].lVal`, if there is an argument.
structure Request where
  id  : Int
  arg : Option Nat

-- `lVal` is `args[0].lVal`.
structure Response where
  id   : HRESULT
  lVal : Nat

-- `listed` tells which functions `m_list_func` has. The callback leaves `result` in the response.
def bcapCallfunc (listed : Int → Bool) (p : Request) (result lastSend : Response) : Response :=
  if 0 < p.id ∧ p.id < functionIdMax then
    if listed p.id then result else { lastSend with id := eNotImpl }
  else
    { lastSend with id := eInvalidArg }

-- The object that a request creates or releases, with the ID of the callback that releases it.
def objectChange (p : Request) (response : Response) : Exec (Option (Entry (Int × Nat))) := do
  if response.id = sOk then
    let relation ← relationId p.id
    if 0 < relation then
      return some <| .take (relation, if p.id = idServiceStart then 0 else response.lVal)
    else if relation < 0 then
      if p.id = idServiceStop then
        return some <| .give (p.id, 0)
      else
        match p.arg with
        | some hObj => return some <| .give (p.id, hObj)
        | none      => throw .read
    else
      return none
  else
    return none

-- The change that is made by a callback, if there is one.
def changes (p : Request) (response : Response) : List (Entry (Int × Nat)) :=
  match objectChange p response with
  | .ok e    => e.toList
  | .error _ => []

-- `receive_execute` waits until the callback of the last received request has completed.
inductive Phase
  | idle
  | waiting
  | leaving
  deriving DecidableEq

end Receiver

structure Receiver where
  vector    : ObjectVector
  lastRecv  : Receiver.Request
  lastSend  : Receiver.Response
  -- Whether `comp_evt` is reset.
  executing : Bool
  phase     : Receiver.Phase
  -- The objects that callbacks have created and released.
  log       : List (Entry (Int × Nat))

namespace Receiver

def start (memory : Memory VecObject) : Receiver where
  vector    := ⟨0, none, memory⟩
  lastRecv  := ⟨0, none⟩
  lastSend  := ⟨0, 0⟩
  executing := false
  phase     := .idle
  log       := []

inductive Act
  -- `receive_execute` returns before it sets `exec_evt`.
  | refuse (hr : HRESULT)
  | accept (p : Request) (hr : HRESULT)
  | complete (result : Response)
  | wait (start execTimeout : Nat) (turns : List WaitTurn) (pObj : Option Nat) (bcapSend : HRESULT)
  | terminate
  | drop

section

variable (listed : Int → Bool) (s : Receiver)

-- What `recv_thread` does after `receive_execute` has returned `hr`.
def returned (hr : HRESULT) : Receiver :=
  { s with phase := if Failed hr ∧ hr ≠ eTimeout then .leaving else .idle }

-- The request is the last received one from now on. `hr` is that of the last option which is read
-- for `ID_SERVICE_START`.
def accept (p : Request) (hr : HRESULT) : Receiver :=
  let s := { s with lastRecv := p, executing := true }
  if Succeeded hr then { s with phase := .waiting } else s.returned hr

-- `exec_thread` has run the callback.
def complete (result : Response) : Receiver :=
  let lastSend := bcapCallfunc listed s.lastRecv result s.lastSend
  { s with
    lastSend  := lastSend
    executing := false
    log       := s.log ++ changes s.lastRecv lastSend }

-- What `receive_execute` does to the vector before it responds, where `pObj` is what `malloc`
-- returns for a new object.
def changeObjects (pObj : Option Nat) : Exec ObjectVector := do
  match ← objectChange s.lastRecv s.lastSend with
  | none                    => return s.vector
  | some (.take (id, hObj)) =>
    match pObj with
    | some p => return (← pushObject p id hObj s.vector).2
    | none   => return s.vector
  | some (.give (id, hObj)) =>
    let index ← searchVector id hObj s.vector
    if 0 ≤ index then
      let (_, pObj, vector) ← popVector index s.vector
      freeObject pObj vector
    else
      return s.vector

end

inductive Step (listed : Int → Bool) : Receiver → Act → Receiver → Prop
  | refuse {s : Receiver} {hr : HRESULT} :
      s.phase = .idle → hr ≠ sOk → Step listed s (.refuse hr) (s.returned hr)
  | accept {s : Receiver} {p : Request} {hr : HRESULT} :
      s.phase = .idle → s.executing = false → (p.id ≠ idServiceStart → hr = sOk) →
      (p.id ∈ creatingIds → s.vector.numObject < bcapObjectMax) →
      Step listed s (.accept p hr) (s.accept p hr)
  | complete {s : Receiver} {result : Response} :
      s.executing = true → Step listed s (.complete result) (s.complete listed result)
  | respond {s : Receiver} {t timeout : Nat} {turns : List WaitTurn} {pObj : Option Nat}
      {bcapSend : HRESULT} {vector : ObjectVector} :
      s.phase = .waiting → s.executing = false →
      waitCompletion t timeout turns = some (.completed sOk) →
      (∀ p, pObj = some p → s.vector.memory.cell p = none) →
      s.changeObjects pObj = .ok vector →
      Step listed s (.wait t timeout turns pObj bcapSend)
        ({ s with vector := vector }.returned bcapSend)
  | abandon {s : Receiver} {t timeout : Nat} {turns : List WaitTurn} {pObj : Option Nat}
      {bcapSend : HRESULT} {w : Waited} :
      s.phase = .waiting → waitCompletion t timeout turns = some w → (∀ hr, w ≠ .completed hr) →
      Step listed s (.wait t timeout turns pObj bcapSend) (s.returned w.hr)
  | terminate {s : Receiver} :
      s.phase = .idle → Step listed s .terminate { s with phase := .leaving }
  -- The executing thread ends before it takes up the request.
  | drop {s : Receiver} :
      s.phase = .leaving → s.executing = true → Step listed s .drop { s with executing := false }

end Receiver
end Bcap
