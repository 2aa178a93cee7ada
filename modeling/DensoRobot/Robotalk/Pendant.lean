import DensoRobot.Common.Clock
import DensoRobot.Robotalk.Packet

open HRESULT Bytes Bcap

namespace Robotalk

def rtkCmdRej       : Nat := 0x0E01
def rtkCmdAck       : Nat := 0x0E02
def tpCmdSpecial    : Nat := 0x0FFF
def tpCmdReqId      : Nat := 0x0EF0
def tpCmdKeyinfo    : Nat := 0x0C20
def tpCmdToutchinfo : Nat := 0x0C21
def tpCmdPing       : Nat := 0x0C2F
def tpErrorTimeout  : Nat := 10000
def tpLessInterval  : Nat := 10000

-- Without the bits that tell a retry.
def nativeCommand (cmd : Nat) : Nat :=
  cmd % 4096

inductive TpState
  | disconnect
  | connect
  | tpLess
  | tpError
  deriving DecidableEq

def TpState.toNat : TpState → Nat
  | disconnect => 0
  | connect    => 1
  | tpLess     => 2
  | tpError    => 3

-- The part of a `CONN_PARAM_TP` that `receive_execute` works on.
structure TpParam where
  state      : TpState
  checkClock : Nat

-- Which of the callback functions are set.
structure CallFuncTp where
  callTpState     : Bool
  callTpKeyInfo   : Bool
  callTpTouchInfo : Bool

-- What happens in a turn of the receiving thread: the calls of the callback functions, and the
-- commands that are sent.
inductive TpEvent
  | tpState (state : Int)
  | tpKeyInfo (keyInfo : List UInt8)
  | tpTouchInfo (mode : UInt8) (posX posY : Nat)
  | send (command : Nat)
  deriving DecidableEq

-- The results of the calls that `receive_execute` makes. `command` and `data` are those of the
-- packet that `tp_recv` gives, `callFunc` is what the callback for it returns, and `callState` what
-- the one for a change of the state returns.
structure TpCalls where
  lockMutex : HRESULT
  tpRecv    : HRESULT
  command   : Nat
  data      : List UInt8
  malloc    : Bool
  callFunc  : HRESULT
  respond   : HRESULT
  ping      : HRESULT
  callState : HRESULT
  time      : Nat

section

variable (func : CallFuncTp)

-- `result` is what a callback returns.
def tpCallfunc (malloc : Bool) (result : HRESULT) (command : Nat) (data : List UInt8) :
    HRESULT × List TpEvent :=
  if command = tpCmdSpecial then
    if data.length = 4 then
      if func.callTpState then (result, [.tpState (i32 (ofLe data))]) else (eNotImpl, [])
    else
      (eInvalidArg, [])
  else if command = tpCmdReqId then
    (sOk, [])
  else if command = tpCmdKeyinfo then
    if data.length = 8 then
      if malloc then
        if func.callTpKeyInfo then (result, [.tpKeyInfo (memcpyBe data)]) else (eNotImpl, [])
      else
        (eOutOfMemory, [])
    else
      (eInvalidArg, [])
  else if command = tpCmdToutchinfo then
    if data.length = 5 then
      if malloc then
        let posX := u16 (ofLe (memcpyBe (data.window 1 2)) * 8 + 4)
        let posY := u16 (ofLe (memcpyBe (data.window 3 2)) * 8 + 4)
        if func.callTpTouchInfo then (result, [.tpTouchInfo (data.getD 0 0) posX posY])
        else (eNotImpl, [])
      else
        (eOutOfMemory, [])
    else
      (eInvalidArg, [])
  else
    (eNotImpl, [])

variable (c : TpCalls)

-- Tells a change of the state.
def callTpState (state : TpState) : HRESULT × List TpEvent :=
  tpCallfunc func c.malloc c.callState tpCmdSpecial (toLe 4 state.toNat)

-- The end of `receive_execute`, where `hr` is the result so far.
def updateState (tmpState : TpState) (hr : HRESULT) (p : TpParam) :
    HRESULT × TpParam × List TpEvent :=
  let cur := gettimeofdayMsec c.time
  let diff := calcTimeDiff p.checkClock cur
  let changed : TpParam := ⟨tmpState, cur⟩
  match p.state, tmpState with
  | .connect, .connect => (hr, changed, [])
  | .connect, .tpLess  =>
    let (hr, events) := callTpState func c .disconnect
    (hr, changed, events)
  | .connect, .tpError =>
    if tpErrorTimeout < diff then
      let (hr, events) := callTpState func c .disconnect
      (hr, changed, events)
    else
      (hr, p, [])
  | .tpLess, .connect | .tpError, .connect =>
    let (hr, events) := callTpState func c .connect
    (hr, changed, events)
  | .tpLess, .tpLess | .tpLess, .tpError | .tpError, .tpLess | .tpError, .tpError =>
    if tpLessInterval < diff then
      let (hr, events) := callTpState func c tmpState
      (hr, changed, events)
    else
      (hr, p, [])
  | .disconnect, _ | .connect, .disconnect | .tpLess, .disconnect | .tpError, .disconnect =>
    (hr, p, [])

-- Executes the command that was received. There is no state if the answer could not be sent.
def execute (p : TpParam) : HRESULT × Option TpState × List TpEvent :=
  let command := nativeCommand c.command
  if command = rtkCmdRej ∨ command = rtkCmdAck ∨ command = rtkCmdNak then
    (c.tpRecv, some .connect, [])
  else
    let (hr, events) := tpCallfunc func c.malloc c.callFunc command c.data
    let events := events ++ [.send (if Succeeded hr then rtkCmdAck else rtkCmdRej)]
    if Failed c.respond then
      (c.respond, none, events)
    else if p.state ≠ .connect ∧ command = tpCmdReqId then
      (c.ping, some p.state, events ++ [.send tpCmdPing])
    else
      (c.respond, some .connect, events)

def receiveExecute (p : TpParam) : HRESULT × TpParam × List TpEvent :=
  if Failed c.lockMutex then
    (c.lockMutex, p, [])
  else if Failed c.tpRecv then
    let tmpState := if c.tpRecv = eAccessDenied then .tpLess else .tpError
    updateState func c tmpState c.tpRecv p
  else
    match execute func c p with
    | (hr, none,          events) => (hr, p, events)
    | (hr, some tmpState, events) =>
      let (hr, p, changes) := updateState func c tmpState hr p
      (hr, p, events ++ changes)

end
end Robotalk
