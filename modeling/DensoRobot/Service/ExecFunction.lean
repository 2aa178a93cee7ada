import DensoRobot.Common.Variant
import DensoRobot.Service.FuncId

open HRESULT Bcap

namespace BcapService

-- The members of a `VARIANT` that its value is read by, where `self` is the whole of it.
inductive Member
  | ulVal
  | lVal
  | fltVal
  | bstrVal
  | self
  deriving DecidableEq

-- What a case of the `switch` in `ExecFunction` does: the arguments that it hands to the function
-- of the client, and what it sets in `tmpKH`.
structure Branch where
  params : List Member
  first  : Int
  second : Bool

namespace Branch

def calls (params : List Member) : Branch where
  params := params
  first  := 0
  second := false

def acquires (params : List Member) (first : Int) : Branch where
  params := params
  first  := first
  second := false

def releases : Branch where
  params := [.ulVal]
  first  := 0
  second := true

end Branch

def controllerBranches : List (Int × Branch) :=
  [ (idControllerConnect, .acquires [.bstrVal, .bstrVal, .bstrVal, .bstrVal] idControllerDisconnect)
  , (idControllerDisconnect, .releases)
  , (idControllerGetextension, .acquires [.ulVal, .bstrVal, .bstrVal] idExtensionRelease)
  , (idControllerGetfile, .acquires [.ulVal, .bstrVal, .bstrVal] idFileRelease)
  , (idControllerGetrobot, .acquires [.ulVal, .bstrVal, .bstrVal] idRobotRelease)
  , (idControllerGettask, .acquires [.ulVal, .bstrVal, .bstrVal] idTaskRelease)
  , (idControllerGetvariable, .acquires [.ulVal, .bstrVal, .bstrVal] idVariableRelease)
  , (idControllerGetcommand, .acquires [.ulVal, .bstrVal, .bstrVal] idCommandRelease)
  , (idControllerGetextensionnames, .calls [.ulVal, .bstrVal])
  , (idControllerGetfilenames, .calls [.ulVal, .bstrVal])
  , (idControllerGetrobotnames, .calls [.ulVal, .bstrVal])
  , (idControllerGettasknames, .calls [.ulVal, .bstrVal])
  , (idControllerGetvariablenames, .calls [.ulVal, .bstrVal])
  , (idControllerGetcommandnames, .calls [.ulVal, .bstrVal])
  , (idControllerExecute, .calls [.ulVal, .bstrVal, .self])
  , (idControllerGetmessage, .acquires [.ulVal] idMessageRelease)
  , (idControllerGetattribute, .calls [.ulVal])
  , (idControllerGethelp, .calls [.ulVal])
  , (idControllerGetname, .calls [.ulVal])
  , (idControllerGettag, .calls [.ulVal])
  , (idControllerPuttag, .calls [.ulVal, .self])
  , (idControllerGetid, .calls [.ulVal])
  , (idControllerPutid, .calls [.ulVal, .self]) ]

def extensionBranches : List (Int × Branch) :=
  [ (idExtensionGetvariable, .acquires [.ulVal, .bstrVal, .bstrVal] idVariableRelease)
  , (idExtensionGetvariablenames, .calls [.ulVal, .bstrVal])
  , (idExtensionExecute, .calls [.ulVal, .bstrVal, .self])
  , (idExtensionGetattribute, .calls [.ulVal])
  , (idExtensionGethelp, .calls [.ulVal])
  , (idExtensionGetname, .calls [.ulVal])
  , (idExtensionGettag, .calls [.ulVal])
  , (idExtensionPuttag, .calls [.ulVal, .self])
  , (idExtensionGetid, .calls [.ulVal])
  , (idExtensionPutid, .calls [.ulVal, .self])
  , (idExtensionRelease, .releases) ]

def fileBranches : List (Int × Branch) :=
  [ (idFileGetfile, .acquires [.ulVal, .bstrVal, .bstrVal] idFileRelease)
  , (idFileGetvariable, .acquires [.ulVal, .bstrVal, .bstrVal] idVariableRelease)
  , (idFileGetfilenames, .calls [.ulVal, .bstrVal])
  , (idFileGetvariablenames, .calls [.ulVal, .bstrVal])
  , (idFileExecute, .calls [.ulVal, .bstrVal, .self])
  , (idFileCopy, .calls [.ulVal, .bstrVal, .bstrVal])
  , (idFileDelete, .calls [.ulVal, .bstrVal])
  , (idFileMove, .calls [.ulVal, .bstrVal, .bstrVal])
  , (idFileRun, .calls [.ulVal, .bstrVal])
  , (idFileGetdatecreated, .calls [.ulVal])
  , (idFileGetdatelastaccessed, .calls [.ulVal])
  , (idFileGetdatelastmodified, .calls [.ulVal])
  , (idFileGetpath, .calls [.ulVal])
  , (idFileGetsize, .calls [.ulVal])
  , (idFileGettype, .calls [.ulVal])
  , (idFileGetvalue, .calls [.ulVal])
  , (idFilePutvalue, .calls [.ulVal, .self])
  , (idFileGetattribute, .calls [.ulVal])
  , (idFileGethelp, .calls [.ulVal])
  , (idFileGetname, .calls [.ulVal])
  , (idFileGettag, .calls [.ulVal])
  , (idFilePuttag, .calls [.ulVal, .self])
  , (idFileGetid, .calls [.ulVal])
  , (idFilePutid, .calls [.ulVal, .self])
  , (idFileRelease, .releases) ]

def robotBranches : List (Int × Branch) :=
  [ (idRobotGetvariable, .acquires [.ulVal, .bstrVal, .bstrVal] idVariableRelease)
  , (idRobotGetvariablenames, .calls [.ulVal, .bstrVal])
  , (idRobotExecute, .calls [.ulVal, .bstrVal, .self])
  , (idRobotAccelerate, .calls [.ulVal, .lVal, .fltVal, .fltVal])
  , (idRobotChange, .calls [.ulVal, .bstrVal])
  , (idRobotChuck, .calls [.ulVal, .bstrVal])
  , (idRobotDrive, .calls [.ulVal, .lVal, .fltVal, .bstrVal])
  , (idRobotGohome, .calls [.ulVal])
  , (idRobotHalt, .calls [.ulVal, .bstrVal])
  , (idRobotHold, .calls [.ulVal, .bstrVal])
  , (idRobotMove, .calls [.ulVal, .lVal, .self, .bstrVal])
  , (idRobotRotate, .calls [.ulVal, .self, .fltVal, .self, .bstrVal])
  , (idRobotSpeed, .calls [.ulVal, .lVal, .fltVal])
  , (idRobotUnchuck, .calls [.ulVal, .bstrVal])
  , (idRobotUnhold, .calls [.ulVal, .bstrVal])
  , (idRobotGetattribute, .calls [.ulVal])
  , (idRobotGethelp, .calls [.ulVal])
  , (idRobotGetname, .calls [.ulVal])
  , (idRobotGettag, .calls [.ulVal])
  , (idRobotPuttag, .calls [.ulVal, .self])
  , (idRobotGetid, .calls [.ulVal])
  , (idRobotPutid, .calls [.ulVal, .self])
  , (idRobotRelease, .releases) ]

def taskBranches : List (Int × Branch) :=
  [ (idTaskGetvariable, .acquires [.ulVal, .bstrVal, .bstrVal] idVariableRelease)
  , (idTaskGetvariablenames, .calls [.ulVal, .bstrVal])
  , (idTaskExecute, .calls [.ulVal, .bstrVal, .self])
  , (idTaskStart, .calls [.ulVal, .lVal, .bstrVal])
  , (idTaskStop, .calls [.ulVal, .lVal, .bstrVal])
  , (idTaskDelete, .calls [.ulVal, .bstrVal])
  , (idTaskGetfilename, .calls [.ulVal])
  , (idTaskGetattribute, .calls [.ulVal])
  , (idTaskGethelp, .calls [.ulVal])
  , (idTaskGetname, .calls [.ulVal])
  , (idTaskGettag, .calls [.ulVal])
  , (idTaskPuttag, .calls [.ulVal, .self])
  , (idTaskGetid, .calls [.ulVal])
  , (idTaskPutid, .calls [.ulVal, .self])
  , (idTaskRelease, .releases) ]

def variableBranches : List (Int × Branch) :=
  [ (idVariableGetdatetime, .calls [.ulVal])
  , (idVariableGetvalue, .calls [.ulVal])
  , (idVariablePutvalue, .calls [.ulVal, .self])
  , (idVariableGetattribute, .calls [.ulVal])
  , (idVariableGethelp, .calls [.ulVal])
  , (idVariableGetname, .calls [.ulVal])
  , (idVariableGettag, .calls [.ulVal])
  , (idVariablePuttag, .calls [.ulVal, .self])
  , (idVariableGetid, .calls [.ulVal])
  , (idVariablePutid, .calls [.ulVal, .self])
  , (idVariableGetmicrosecond, .calls [.ulVal])
  , (idVariableRelease, .releases) ]

def commandBranches : List (Int × Branch) :=
  [ (idCommandExecute, .calls [.ulVal, .lVal])
  , (idCommandCancel, .calls [.ulVal])
  , (idCommandGettimeout, .calls [.ulVal])
  , (idCommandPuttimeout, .calls [.ulVal, .lVal])
  , (idCommandGetstate, .calls [.ulVal])
  , (idCommandGetparameters, .calls [.ulVal])
  , (idCommandPutparameters, .calls [.ulVal, .self])
  , (idCommandGetresult, .calls [.ulVal])
  , (idCommandGetattribute, .calls [.ulVal])
  , (idCommandGethelp, .calls [.ulVal])
  , (idCommandGetname, .calls [.ulVal])
  , (idCommandGettag, .calls [.ulVal])
  , (idCommandPuttag, .calls [.ulVal, .self])
  , (idCommandGetid, .calls [.ulVal])
  , (idCommandPutid, .calls [.ulVal, .self])
  , (idCommandRelease, .releases) ]

def messageBranches : List (Int × Branch) :=
  [ (idMessageReply, .calls [.ulVal, .self])
  , (idMessageClear, .calls [.ulVal])
  , (idMessageGetdatetime, .calls [.ulVal])
  , (idMessageGetdescription, .calls [.ulVal])
  , (idMessageGetdestination, .calls [.ulVal])
  , (idMessageGetnumber, .calls [.ulVal])
  , (idMessageGetserialnumber, .calls [.ulVal])
  , (idMessageGetsource, .calls [.ulVal])
  , (idMessageGetvalue, .calls [.ulVal])
  , (idMessageRelease, .releases) ]

def branches : List (Int × Branch) :=
  controllerBranches ++ extensionBranches ++ fileBranches ++ robotBranches ++ taskBranches ++
    variableBranches ++ commandBranches ++ messageBranches

-- The call of a function of the client, with the arguments that were read for it.
structure Invocation where
  funcId : Int
  args   : List (Member × Variant)

-- What the client answers to a call: its result and `vntRet->ulVal` after it.
structure Reply where
  hr    : HRESULT
  ulVal : Nat

end BcapService

-- The members of a `BCAPService` that calls depend on.
structure BcapService where
  fd    : Int
  vecKH : List (Int × Nat)

namespace BcapService

-- The lower half of the union, where `address` tells the addresses of memory blocks.
def ulVal (address : Nat → Nat) : Variant → Nat
  | .scalar _ val        => u32 val
  | .bstr none           => 0
  | .bstr (some bstrVal) => u32 (address bstrVal.addr)
  | .nullArray _         => 0
  | .rawArray _ psa _    => u32 (address psa.addr)
  | .bstrArray psa _     => u32 (address psa.addr)
  | .variantArray psa _  => u32 (address psa.addr)

-- The handle among the arguments of a function that releases one.
def handle (address : Nat → Nat) : List Variant → Nat
  | arg :: _ => ulVal address arg
  | []       => 0

-- What the `switch` leaves behind: the result, the call that it made, and `tmpKH`.
-- The call of `at` throws for an argument that is missing, before anything else is done.
def dispatch (address : Nat → Nat) (funcId : Int) (args : List Variant) (reply : Reply) :
    HRESULT × Option Invocation × (Int × Nat) :=
  match branches.lookup funcId with
  | none => (eInvalidArg, none, (0, 0))
  | some branch =>
    if args.length < branch.params.length then
      (eBadIndex, none, (0, 0))
    else
      let second := if branch.second then handle address args else 0
      (reply.hr, some ⟨funcId, branch.params.zip args⟩, (branch.first, second))

def execFunction (address : Nat → Nat) (funcId : Int) (args : List Variant) (reply : Reply)
    (s : BcapService) : (HRESULT × Option Invocation) × BcapService :=
  let (hr, call, tmpKH) := dispatch address funcId args reply
  let vecKH :=
    if hr = sOk then
      if 0 < tmpKH.1 then
        s.vecKH ++ [(tmpKH.1, reply.ulVal)]
      else if 0 < tmpKH.2 then
        s.vecKH.erase (funcId, tmpKH.2)
      else
        s.vecKH
    else
      s.vecKH
  ((hr, call), { s with vecKH := vecKH })

-- What `Disconnect` asks the client for.
inductive Request
  | release (funcId : Int) (handle : Nat)
  | serviceStop
  | close
  deriving DecidableEq

-- The functions that `Disconnect` knows to release a handle by.
def releaseIds : List Int :=
  [idControllerDisconnect, idExtensionRelease, idFileRelease, idRobotRelease, idTaskRelease,
    idVariableRelease, idCommandRelease, idMessageRelease]

def releaseRequest (key : Int × Nat) : Option Request :=
  if key.1 ∈ releaseIds then some (.release key.1 key.2) else none

-- `closed` tells whether the client found the connection that it was to close.
def disconnect (closed : Bool) (s : BcapService) : List Request × BcapService :=
  if 0 < s.fd then
    (s.vecKH.filterMap releaseRequest ++ [.serviceStop, .close],
      ⟨if closed then 0 else s.fd, []⟩)
  else
    ([], s)

end BcapService
