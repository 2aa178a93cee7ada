import DensoRobot.Bcap.Invoke
import DensoRobot.Service.FuncId

open HRESULT

namespace Bcap.Api

-- The types of the parameters that the functions of the client declare.
inductive Param
  | uint32
  | int32
  | float
  | bstr
  | variant
  deriving DecidableEq

-- A compiler passes arguments and pointers of these types only.
def Param.Takes : Param → VaArg → Prop
  | .uint32, .int _ | .int32, .int _ | .float, .double _ | .bstr, .bstr _ => True
  | .variant, .variant _                                                  => True
  | _, _                                                                  => False

def Param.PointsTo : Param → Var → Prop
  | .uint32, .int _ | .int32, .int _ | .bstr, .bstr _ | .variant, .variant _ => True
  | _, _                                                                     => False

-- The functions of the client for the function IDs: the parameters that they declare, other than
-- the pointer to the result or to a handle, and the number of arguments and the format that they
-- hand to `invoke_function`. A function that creates an object checks the pointer to the handle,
-- and one that releases an object sets the handle to 0 as well.
inductive Function
  | calls (id : Int) (params : List Param) (argc : Nat) (format : String)
  | gets (id : Int) (params : List Param) (result : Param) (argc : Nat) (format : String)
  | creates (id : Int) (params : List Param) (argc : Nat) (format : String)
  | releases (id : Int) (argc : Nat) (format : String)
  deriving DecidableEq

namespace Function

def id : Function → Int
  | calls id _ _ _ | gets id _ _ _ _ | creates id _ _ _ | releases id _ _ => id

def params : Function → List Param
  | calls _ params _ _ | gets _ params _ _ _ | creates _ params _ _ => params
  | releases _ _ _                                                  => []

-- What the pointer among the parameters points to.
def pointer : Function → Option Param
  | calls _ _ _ _                    => none
  | gets _ _ result _ _              => some result
  | creates _ _ _ _ | releases _ _ _ => some .uint32

def argc : Function → Nat
  | calls _ _ argc _ | gets _ _ _ argc _ | creates _ _ argc _ | releases _ argc _ => argc

def format : Function → List Nat
  | calls _ _ _ format | gets _ _ _ _ format | creates _ _ _ format | releases _ _ format =>
    format.toList.map Char.toNat

def bCapServiceStart : Function := .calls idServiceStart [.bstr] 1 "8"
def bCapServiceStop : Function := .calls idServiceStop [] 0 ""

def serviceFunctions : List Function :=
  [ bCapServiceStart, bCapServiceStop ]

def bCapControllerConnect : Function :=
  .creates idControllerConnect [.bstr, .bstr, .bstr, .bstr] 4 "8,8,8,8:3"
def bCapControllerDisconnect : Function := .releases idControllerDisconnect 1 "3"
def bCapControllerGetExtension : Function :=
  .creates idControllerGetextension [.uint32, .bstr, .bstr] 3 "3,8,8:3"
def bCapControllerGetFile : Function :=
  .creates idControllerGetfile [.uint32, .bstr, .bstr] 3 "3,8,8:3"
def bCapControllerGetRobot : Function :=
  .creates idControllerGetrobot [.uint32, .bstr, .bstr] 3 "3,8,8:3"
def bCapControllerGetTask : Function :=
  .creates idControllerGettask [.uint32, .bstr, .bstr] 3 "3,8,8:3"
def bCapControllerGetVariable : Function :=
  .creates idControllerGetvariable [.uint32, .bstr, .bstr] 3 "3,8,8:3"
def bCapControllerGetCommand : Function :=
  .creates idControllerGetcommand [.uint32, .bstr, .bstr] 3 "3,8,8:3"
def bCapControllerGetExtensionNames : Function :=
  .gets idControllerGetextensionnames [.uint32, .bstr] .variant 2 "3,8:12"
def bCapControllerGetFileNames : Function :=
  .gets idControllerGetfilenames [.uint32, .bstr] .variant 2 "3,8:12"
def bCapControllerGetRobotNames : Function :=
  .gets idControllerGetrobotnames [.uint32, .bstr] .variant 2 "3,8:12"
def bCapControllerGetTaskNames : Function :=
  .gets idControllerGettasknames [.uint32, .bstr] .variant 2 "3,8:12"
def bCapControllerGetVariableNames : Function :=
  .gets idControllerGetvariablenames [.uint32, .bstr] .variant 2 "3,8:12"
def bCapControllerGetCommandNames : Function :=
  .gets idControllerGetcommandnames [.uint32, .bstr] .variant 2 "3,8:12"
def bCapControllerExecute : Function :=
  .gets idControllerExecute [.uint32, .bstr, .variant] .variant 3 "3,8,12:12"
def bCapControllerGetMessage : Function := .creates idControllerGetmessage [.uint32] 1 "3:3"
def bCapControllerGetAttribute : Function := .gets idControllerGetattribute [.uint32] .int32 1 "3:3"
def bCapControllerGetHelp : Function := .gets idControllerGethelp [.uint32] .bstr 1 "3:8"
def bCapControllerGetName : Function := .gets idControllerGetname [.uint32] .bstr 1 "3:8"
def bCapControllerGetTag : Function := .gets idControllerGettag [.uint32] .variant 1 "3:12"
def bCapControllerPutTag : Function := .calls idControllerPuttag [.uint32, .variant] 2 "3,12"
def bCapControllerGetID : Function := .gets idControllerGetid [.uint32] .variant 1 "3:12"
def bCapControllerPutID : Function := .calls idControllerPutid [.uint32, .variant] 2 "3,12"

def controllerFunctions : List Function :=
  [ bCapControllerConnect, bCapControllerDisconnect, bCapControllerGetExtension,
    bCapControllerGetFile, bCapControllerGetRobot, bCapControllerGetTask, bCapControllerGetVariable,
    bCapControllerGetCommand, bCapControllerGetExtensionNames, bCapControllerGetFileNames,
    bCapControllerGetRobotNames, bCapControllerGetTaskNames, bCapControllerGetVariableNames,
    bCapControllerGetCommandNames, bCapControllerExecute, bCapControllerGetMessage,
    bCapControllerGetAttribute, bCapControllerGetHelp, bCapControllerGetName, bCapControllerGetTag,
    bCapControllerPutTag, bCapControllerGetID, bCapControllerPutID ]

def bCapExtensionGetVariable : Function :=
  .creates idExtensionGetvariable [.uint32, .bstr, .bstr] 3 "3,8,8:3"
def bCapExtensionGetVariableNames : Function :=
  .gets idExtensionGetvariablenames [.uint32, .bstr] .variant 2 "3,8:12"
def bCapExtensionExecute : Function :=
  .gets idExtensionExecute [.uint32, .bstr, .variant] .variant 3 "3,8,12:12"
def bCapExtensionGetAttribute : Function := .gets idExtensionGetattribute [.uint32] .int32 1 "3:3"
def bCapExtensionGetHelp : Function := .gets idExtensionGethelp [.uint32] .bstr 1 "3:8"
def bCapExtensionGetName : Function := .gets idExtensionGetname [.uint32] .bstr 1 "3:8"
def bCapExtensionGetTag : Function := .gets idExtensionGettag [.uint32] .variant 1 "3:12"
def bCapExtensionPutTag : Function := .calls idExtensionPuttag [.uint32, .variant] 2 "3,12"
def bCapExtensionGetID : Function := .gets idExtensionGetid [.uint32] .variant 1 "3:12"
def bCapExtensionPutID : Function := .calls idExtensionPutid [.uint32, .variant] 2 "3,12"
def bCapExtensionRelease : Function := .releases idExtensionRelease 1 "3"

def extensionFunctions : List Function :=
  [ bCapExtensionGetVariable, bCapExtensionGetVariableNames, bCapExtensionExecute,
    bCapExtensionGetAttribute, bCapExtensionGetHelp, bCapExtensionGetName, bCapExtensionGetTag,
    bCapExtensionPutTag, bCapExtensionGetID, bCapExtensionPutID, bCapExtensionRelease ]

def bCapFileGetFile : Function := .creates idFileGetfile [.uint32, .bstr, .bstr] 3 "3,8,8:3"
def bCapFileGetVariable : Function := .creates idFileGetvariable [.uint32, .bstr, .bstr] 3 "3,8,8:3"
def bCapFileGetFileNames : Function := .gets idFileGetfilenames [.uint32, .bstr] .variant 2 "3,8:12"
def bCapFileGetVariableNames : Function :=
  .gets idFileGetvariablenames [.uint32, .bstr] .variant 2 "3,8:12"
def bCapFileExecute : Function :=
  .gets idFileExecute [.uint32, .bstr, .variant] .variant 3 "3,8,12:12"
def bCapFileCopy : Function := .calls idFileCopy [.uint32, .bstr, .bstr] 3 "3,8,8"
def bCapFileDelete : Function := .calls idFileDelete [.uint32, .bstr] 2 "3,8"
def bCapFileMove : Function := .calls idFileMove [.uint32, .bstr, .bstr] 3 "3,8,8"
def bCapFileRun : Function := .gets idFileRun [.uint32, .bstr] .bstr 2 "3,8:8"
def bCapFileGetDateCreated : Function := .gets idFileGetdatecreated [.uint32] .variant 1 "3:12"
def bCapFileGetDateLastAccessed : Function :=
  .gets idFileGetdatelastaccessed [.uint32] .variant 1 "3:12"
def bCapFileGetDateLastModified : Function :=
  .gets idFileGetdatelastmodified [.uint32] .variant 1 "3:12"
def bCapFileGetPath : Function := .gets idFileGetpath [.uint32] .bstr 1 "3:8"
def bCapFileGetSize : Function := .gets idFileGetsize [.uint32] .int32 1 "3:3"
def bCapFileGetType : Function := .gets idFileGettype [.uint32] .bstr 1 "3:8"
def bCapFileGetValue : Function := .gets idFileGetvalue [.uint32] .variant 1 "3:12"
def bCapFilePutValue : Function := .calls idFilePutvalue [.uint32, .variant] 2 "3,12"
def bCapFileGetAttribute : Function := .gets idFileGetattribute [.uint32] .int32 1 "3:3"
def bCapFileGetHelp : Function := .gets idFileGethelp [.uint32] .bstr 1 "3:8"
def bCapFileGetName : Function := .gets idFileGetname [.uint32] .bstr 1 "3:8"
def bCapFileGetTag : Function := .gets idFileGettag [.uint32] .variant 1 "3:12"
def bCapFilePutTag : Function := .calls idFilePuttag [.uint32, .variant] 2 "3,12"
def bCapFileGetID : Function := .gets idFileGetid [.uint32] .variant 1 "3:12"
def bCapFilePutID : Function := .calls idFilePutid [.uint32, .variant] 2 "3,12"
def bCapFileRelease : Function := .releases idFileRelease 1 "3"

def fileFunctions : List Function :=
  [ bCapFileGetFile, bCapFileGetVariable, bCapFileGetFileNames, bCapFileGetVariableNames,
    bCapFileExecute, bCapFileCopy, bCapFileDelete, bCapFileMove, bCapFileRun,
    bCapFileGetDateCreated, bCapFileGetDateLastAccessed, bCapFileGetDateLastModified,
    bCapFileGetPath, bCapFileGetSize, bCapFileGetType, bCapFileGetValue, bCapFilePutValue,
    bCapFileGetAttribute, bCapFileGetHelp, bCapFileGetName, bCapFileGetTag, bCapFilePutTag,
    bCapFileGetID, bCapFilePutID, bCapFileRelease ]

def bCapRobotGetVariable : Function :=
  .creates idRobotGetvariable [.uint32, .bstr, .bstr] 3 "3,8,8:3"
def bCapRobotGetVariableNames : Function :=
  .gets idRobotGetvariablenames [.uint32, .bstr] .variant 2 "3,8:12"
def bCapRobotExecute : Function :=
  .gets idRobotExecute [.uint32, .bstr, .variant] .variant 3 "3,8,12:12"
def bCapRobotAccelerate : Function :=
  .calls idRobotAccelerate [.uint32, .int32, .float, .float] 4 "3,3,4,4"
def bCapRobotChange : Function := .calls idRobotChange [.uint32, .bstr] 2 "3,8"
def bCapRobotChuck : Function := .calls idRobotChuck [.uint32, .bstr] 2 "3,8"
def bCapRobotDrive : Function := .calls idRobotDrive [.uint32, .int32, .float, .bstr] 4 "3,3,4,8"
def bCapRobotGoHome : Function := .calls idRobotGohome [.uint32] 1 "3"
def bCapRobotHalt : Function := .calls idRobotHalt [.uint32, .bstr] 2 "3,8"
def bCapRobotHold : Function := .calls idRobotHold [.uint32, .bstr] 2 "3,8"
def bCapRobotMove : Function := .calls idRobotMove [.uint32, .int32, .variant, .bstr] 4 "3,3,12,8"
def bCapRobotRotate : Function :=
  .calls idRobotRotate [.uint32, .variant, .float, .variant, .bstr] 5 "3,12,4,12,8"
def bCapRobotSpeed : Function := .calls idRobotSpeed [.uint32, .int32, .float] 3 "3,3,4"
def bCapRobotUnchuck : Function := .calls idRobotUnchuck [.uint32, .bstr] 2 "3,8"
def bCapRobotUnhold : Function := .calls idRobotUnhold [.uint32, .bstr] 2 "3,8"
def bCapRobotGetAttribute : Function := .gets idRobotGetattribute [.uint32] .int32 1 "3:3"
def bCapRobotGetHelp : Function := .gets idRobotGethelp [.uint32] .bstr 1 "3:8"
def bCapRobotGetName : Function := .gets idRobotGetname [.uint32] .bstr 1 "3:8"
def bCapRobotGetTag : Function := .gets idRobotGettag [.uint32] .variant 1 "3:12"
def bCapRobotPutTag : Function := .calls idRobotPuttag [.uint32, .variant] 2 "3,12"
def bCapRobotGetID : Function := .gets idRobotGetid [.uint32] .variant 1 "3:12"
def bCapRobotPutID : Function := .calls idRobotPutid [.uint32, .variant] 2 "3,12"
def bCapRobotRelease : Function := .releases idRobotRelease 1 "3"

def robotFunctions : List Function :=
  [ bCapRobotGetVariable, bCapRobotGetVariableNames, bCapRobotExecute, bCapRobotAccelerate,
    bCapRobotChange, bCapRobotChuck, bCapRobotDrive, bCapRobotGoHome, bCapRobotHalt, bCapRobotHold,
    bCapRobotMove, bCapRobotRotate, bCapRobotSpeed, bCapRobotUnchuck, bCapRobotUnhold,
    bCapRobotGetAttribute, bCapRobotGetHelp, bCapRobotGetName, bCapRobotGetTag, bCapRobotPutTag,
    bCapRobotGetID, bCapRobotPutID, bCapRobotRelease ]

def bCapTaskGetVariable : Function := .creates idTaskGetvariable [.uint32, .bstr, .bstr] 3 "3,8,8:3"
def bCapTaskGetVariableNames : Function :=
  .gets idTaskGetvariablenames [.uint32, .bstr] .variant 2 "3,8:12"
def bCapTaskExecute : Function :=
  .gets idTaskExecute [.uint32, .bstr, .variant] .variant 3 "3,8,12:12"
def bCapTaskStart : Function := .calls idTaskStart [.uint32, .int32, .bstr] 3 "3,3,8"
def bCapTaskStop : Function := .calls idTaskStop [.uint32, .int32, .bstr] 3 "3,3,8"
def bCapTaskDelete : Function := .calls idTaskDelete [.uint32, .bstr] 2 "3,8"
def bCapTaskGetFileName : Function := .gets idTaskGetfilename [.uint32] .bstr 1 "3:8"
def bCapTaskGetAttribute : Function := .gets idTaskGetattribute [.uint32] .int32 1 "3:3"
def bCapTaskGetHelp : Function := .gets idTaskGethelp [.uint32] .bstr 1 "3:8"
def bCapTaskGetName : Function := .gets idTaskGetname [.uint32] .bstr 1 "3:8"
def bCapTaskGetTag : Function := .gets idTaskGettag [.uint32] .variant 1 "3:12"
def bCapTaskPutTag : Function := .calls idTaskPuttag [.uint32, .variant] 2 "3,12"
def bCapTaskGetID : Function := .gets idTaskGetid [.uint32] .variant 1 "3:12"
def bCapTaskPutID : Function := .calls idTaskPutid [.uint32, .variant] 2 "3,12"
def bCapTaskRelease : Function := .releases idTaskRelease 1 "3"

def taskFunctions : List Function :=
  [ bCapTaskGetVariable, bCapTaskGetVariableNames, bCapTaskExecute, bCapTaskStart, bCapTaskStop,
    bCapTaskDelete, bCapTaskGetFileName, bCapTaskGetAttribute, bCapTaskGetHelp, bCapTaskGetName,
    bCapTaskGetTag, bCapTaskPutTag, bCapTaskGetID, bCapTaskPutID, bCapTaskRelease ]

def bCapVariableGetDateTime : Function := .gets idVariableGetdatetime [.uint32] .variant 1 "3:12"
def bCapVariableGetValue : Function := .gets idVariableGetvalue [.uint32] .variant 1 "3:12"
def bCapVariablePutValue : Function := .calls idVariablePutvalue [.uint32, .variant] 2 "3,12"
def bCapVariableGetAttribute : Function := .gets idVariableGetattribute [.uint32] .int32 1 "3:3"
def bCapVariableGetHelp : Function := .gets idVariableGethelp [.uint32] .bstr 1 "3:8"
def bCapVariableGetName : Function := .gets idVariableGetname [.uint32] .bstr 1 "3:8"
def bCapVariableGetTag : Function := .gets idVariableGettag [.uint32] .variant 1 "3:12"
def bCapVariablePutTag : Function := .calls idVariablePuttag [.uint32, .variant] 2 "3,12"
def bCapVariableGetID : Function := .gets idVariableGetid [.uint32] .variant 1 "3:12"
def bCapVariablePutID : Function := .calls idVariablePutid [.uint32, .variant] 2 "3,12"
def bCapVariableGetMicrosecond : Function := .gets idVariableGetmicrosecond [.uint32] .int32 1 "3:3"
def bCapVariableRelease : Function := .releases idVariableRelease 1 "3"

def variableFunctions : List Function :=
  [ bCapVariableGetDateTime, bCapVariableGetValue, bCapVariablePutValue, bCapVariableGetAttribute,
    bCapVariableGetHelp, bCapVariableGetName, bCapVariableGetTag, bCapVariablePutTag,
    bCapVariableGetID, bCapVariablePutID, bCapVariableGetMicrosecond, bCapVariableRelease ]

def bCapCommandExecute : Function := .gets idCommandExecute [.uint32, .int32] .variant 2 "3,3:12"
def bCapCommandCancel : Function := .calls idCommandCancel [.uint32] 1 "3"
def bCapCommandGetTimeout : Function := .gets idCommandGettimeout [.uint32] .int32 1 "3:3"
def bCapCommandPutTimeout : Function := .calls idCommandPuttimeout [.uint32, .int32] 2 "3,3"
def bCapCommandGetState : Function := .gets idCommandGetstate [.uint32] .int32 1 "3:3"
def bCapCommandGetParameters : Function := .gets idCommandGetparameters [.uint32] .variant 1 "3:12"
def bCapCommandPutParameters : Function :=
  .calls idCommandPutparameters [.uint32, .variant] 2 "3,12"
def bCapCommandGetResult : Function := .gets idCommandGetresult [.uint32] .variant 1 "3:12"
def bCapCommandGetAttribute : Function := .gets idCommandGetattribute [.uint32] .int32 1 "3:3"
def bCapCommandGetHelp : Function := .gets idCommandGethelp [.uint32] .bstr 1 "3:8"
def bCapCommandGetName : Function := .gets idCommandGetname [.uint32] .bstr 1 "3:8"
def bCapCommandGetTag : Function := .gets idCommandGettag [.uint32] .variant 1 "3:12"
def bCapCommandPutTag : Function := .calls idCommandPuttag [.uint32, .variant] 2 "3,12"
def bCapCommandGetID : Function := .gets idCommandGetid [.uint32] .variant 1 "3:12"
def bCapCommandPutID : Function := .calls idCommandPutid [.uint32, .variant] 2 "3,12"
def bCapCommandRelease : Function := .releases idCommandRelease 1 "3"

def commandFunctions : List Function :=
  [ bCapCommandExecute, bCapCommandCancel, bCapCommandGetTimeout, bCapCommandPutTimeout,
    bCapCommandGetState, bCapCommandGetParameters, bCapCommandPutParameters, bCapCommandGetResult,
    bCapCommandGetAttribute, bCapCommandGetHelp, bCapCommandGetName, bCapCommandGetTag,
    bCapCommandPutTag, bCapCommandGetID, bCapCommandPutID, bCapCommandRelease ]

def bCapMessageReply : Function := .calls idMessageReply [.uint32, .variant] 2 "3,12"
def bCapMessageClear : Function := .calls idMessageClear [.uint32] 1 "3"
def bCapMessageGetDateTime : Function := .gets idMessageGetdatetime [.uint32] .variant 1 "3:12"
def bCapMessageGetDescription : Function := .gets idMessageGetdescription [.uint32] .bstr 1 "3:8"
def bCapMessageGetDestination : Function := .gets idMessageGetdestination [.uint32] .bstr 1 "3:8"
def bCapMessageGetNumber : Function := .gets idMessageGetnumber [.uint32] .int32 1 "3:3"
def bCapMessageGetSerialNumber : Function := .gets idMessageGetserialnumber [.uint32] .int32 1 "3:3"
def bCapMessageGetSource : Function := .gets idMessageGetsource [.uint32] .bstr 1 "3:8"
def bCapMessageGetValue : Function := .gets idMessageGetvalue [.uint32] .variant 1 "3:12"
def bCapMessageRelease : Function := .releases idMessageRelease 1 "3"

def messageFunctions : List Function :=
  [ bCapMessageReply, bCapMessageClear, bCapMessageGetDateTime, bCapMessageGetDescription,
    bCapMessageGetDestination, bCapMessageGetNumber, bCapMessageGetSerialNumber,
    bCapMessageGetSource, bCapMessageGetValue, bCapMessageRelease ]

def bcapFunctions : List Function :=
  serviceFunctions ++ controllerFunctions ++ extensionFunctions ++ fileFunctions ++
    robotFunctions ++ taskFunctions ++ variableFunctions ++ commandFunctions ++ messageFunctions

end Function

-- A call of a function. `var` is what the pointer to the result or to the handle points to.
-- `next` and `nextRet` are the numbers of the next block of memory in the beginning and after the
-- response was received.
structure Call where
  function : Function
  args     : List VaArg
  var      : Option Var
  next     : Nat
  nextRet  : Nat
  takes    : List.Forall₂ Param.Takes function.params args
  pointsTo : ∀ v ∈ var, ∃ p ∈ function.pointer, p.PointsTo v

section

variable (host : Host) (fuel : Nat) (port : Port σ)

-- The result of a call, and what the variable of the pointer holds then.
def Function.run (f : Function) (args : List VaArg) (var : Option Var) (next nextRet : Nat)
    (client : Client) (state : σ) : Exec (HRESULT × Option Var × Client × σ) :=
  let invoke (list : List VaArg) :=
    invokeFunction host fuel port client f.id f.argc f.format list next nextRet state
  match f, var with
  | .calls _ _ _ _,   var             => do
    let (hr, _, client, state) ← invoke args
    return (hr, var, client, state)
  | .gets _ _ _ _ _,  var             => do
    let (hr, written, client, state) ← invoke (args ++ [.pointer var])
    return (hr, written.or var, client, state)
  | .creates _ _ _ _, none            => pure (eInvalidArg, none, client, state)
  | .creates _ _ _ _, some var        => do
    let (hr, written, client, state) ← invoke (args ++ [.pointer (some var)])
    return (hr, written.or (some var), client, state)
  | .releases _ _ _,  none            => pure (eInvalidArg, none, client, state)
  | .releases _ _ _,  some (.int h)   => do
    let (hr, _, client, state) ← invoke [.int h]
    return (hr, some <| .int <| if Failed hr then h else 0, client, state)
  | .releases _ _ _,  some _          => throw .read

def Call.run (c : Call) (client : Client) (state : σ) :
    Exec (HRESULT × Option Var × Client × σ) :=
  c.function.run host fuel port c.args c.var c.next c.nextRet client state

-- Calls that are made one after the other.
def runCalls : List Call → Client → σ → Exec (List (HRESULT × Option Var) × Client × σ)
  | [],      client, state => pure ([], client, state)
  | c :: cs, client, state => do
    let (hr, var, client, state) ← c.run host fuel port client state
    let (rs, client, state) ← runCalls cs client state
    return ((hr, var) :: rs, client, state)

end
end Bcap.Api
