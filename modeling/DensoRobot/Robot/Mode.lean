import DensoRobot.Bcap.Client

open HRESULT Bcap

namespace Robot

-- The connection `m_vecService[SRV_ACT]`. Its number of attempts is one that `bCap_SetRetry`
-- stores.
structure Service where
  type     : ConnType
  timeout  : Nat
  retry    : Nat
  retry_ok : bCapSetRetry type retry = retry

namespace Service

@[ext]
theorem ext {s₁ s₂ : Service} (ht : s₁.type = s₂.type) (hm : s₁.timeout = s₂.timeout)
    (hr : s₁.retry = s₂.retry) : s₁ = s₂ := by
  cases s₁; cases s₂; simp_all

def putTimeout (s : Service) (value : Nat) : Service :=
  { s with timeout := value }

def putRetry (s : Service) (value : Nat) : Service :=
  { s with retry := bCapSetRetry s.type value, retry_ok := bCapSetRetry_idem _ _ }

end Service

-- The commands for the controller with which the mode is changed.
inductive Command
  | slvSendFormat (format : Int)
  | slvRecvFormat (format : Int) (option : Int)
  | slvChangeMode (mode : Int)
  | takeArm (group : Int)
  | giveArm

-- The slave mode that the controller is in, and whether the arm is held.
structure Controller where
  slaveMode : Int
  armHeld   : Bool

def Controller.effect : Command → Controller → Controller
  | .slvSendFormat _,   c => c
  | .slvRecvFormat _ _, c => c
  | .slvChangeMode m,   c => { c with slaveMode := m }
  | .takeArm _,         c => { c with armHeld := true }
  | .giveArm,           c => { c with armHeld := false }

-- The results of the commands during a call.
abbrev Reply := Command → HRESULT

-- A command that fails has no effect.
def Controller.exec (reply : Reply) (cmd : Command) (c : Controller) : HRESULT × Controller :=
  (reply cmd, if Succeeded (reply cmd) then c.effect cmd else c)

def slvmodeSyncWait     : Nat := 0x0200
def slvmodeTimeoutSync  : Nat := 16
def slvmodeTimeoutAsync : Nat := 8

-- `mode & SLVMODE_SYNC_WAIT`
def syncWait (mode : Int) : Bool :=
  mode / slvmodeSyncWait % 2 = 1

structure DensoRobot where
  armGroup   : Int
  sendfmt    : Int
  recvfmt    : Int
  tsfmt      : Int
  memTimeout : Nat
  memRetry   : Nat
  service    : Service
  controller : Controller

namespace DensoRobot

def exec (reply : Reply) (cmd : Command) (rob : DensoRobot) : HRESULT × DensoRobot :=
  let (hr, controller) := rob.controller.exec reply cmd
  (hr, { rob with controller })

def rememberService (rob : DensoRobot) : DensoRobot :=
  { rob with memTimeout := rob.service.timeout, memRetry := rob.service.retry }

def slaveService (mode : Int) (rob : DensoRobot) : DensoRobot :=
  let timeout := if syncWait mode then slvmodeTimeoutSync else slvmodeTimeoutAsync
  { rob with service := rob.service.putTimeout timeout |>.putRetry 3 }

def restoreService (rob : DensoRobot) : DensoRobot :=
  { rob with service := rob.service.putTimeout rob.memTimeout |>.putRetry rob.memRetry }

-- `curMode` is `*m_mode`.
def changeMode (reply : Reply) (curMode mode : Int) (rob : DensoRobot) : HRESULT × DensoRobot :=
  if curMode = 0 then
    if mode ≠ 0 then
      let (hr, rob) := rob.exec reply (.slvSendFormat rob.sendfmt)
      if Failed hr then
        (hr, rob)
      else
        let (hr, rob) := rob.exec reply (.slvRecvFormat rob.recvfmt rob.tsfmt)
        if Failed hr then
          (hr, rob)
        else
          let (hr, rob) := rob.exec reply (.takeArm rob.armGroup)
          if Failed hr then
            (hr, rob)
          else
            let (hr, rob) := rob.exec reply (.slvChangeMode mode)
            if Failed hr then
              (hr, rob)
            else
              (hr, rob.rememberService.slaveService mode)
    else
      (sOk, rob)
  else
    let (hr, rob) := rob.restoreService.exec reply (.slvChangeMode mode)
    let (_,  rob) := rob.exec reply .giveArm
    (hr, rob)

end DensoRobot

-- `DensoRobotCore`, whose controller has a robot to be returned by `get_Robot(0)`.
structure Core where
  ctrlType : Int
  mode     : Int
  serving  : Bool
  robot    : DensoRobot

namespace Core

def changeMode (reply : Reply) (mode : Int) (service : Bool) (core : Core) : HRESULT × Core :=
  let core := { core with serving := false }
  let (hr, robot) :=
    if core.ctrlType = 8 ∨ core.ctrlType = 9 then
      core.robot.changeMode reply core.mode mode
    else
      (eFail, core.robot)
  let mode := if Succeeded hr then mode else 0
  (hr, { core with mode, robot, serving := mode = 0 ∧ service })

end Core
end Robot
