-- The function IDs of b-CAP.

namespace Bcap

def idServiceStart                : Int := 1
def idServiceStop                 : Int := 2
def idControllerConnect           : Int := 3
def idControllerDisconnect        : Int := 4
def idControllerGetextension      : Int := 5
def idControllerGetfile           : Int := 6
def idControllerGetrobot          : Int := 7
def idControllerGettask           : Int := 8
def idControllerGetvariable       : Int := 9
def idControllerGetcommand        : Int := 10
def idControllerGetextensionnames : Int := 11
def idControllerGetfilenames      : Int := 12
def idControllerGetrobotnames     : Int := 13
def idControllerGettasknames      : Int := 14
def idControllerGetvariablenames  : Int := 15
def idControllerGetcommandnames   : Int := 16
def idControllerExecute           : Int := 17
def idControllerGetmessage        : Int := 18
def idControllerGetattribute      : Int := 19
def idControllerGethelp           : Int := 20
def idControllerGetname           : Int := 21
def idControllerGettag            : Int := 22
def idControllerPuttag            : Int := 23
def idControllerGetid             : Int := 24
def idControllerPutid             : Int := 25
def idExtensionGetvariable        : Int := 26
def idExtensionGetvariablenames   : Int := 27
def idExtensionExecute            : Int := 28
def idExtensionGetattribute       : Int := 29
def idExtensionGethelp            : Int := 30
def idExtensionGetname            : Int := 31
def idExtensionGettag             : Int := 32
def idExtensionPuttag             : Int := 33
def idExtensionGetid              : Int := 34
def idExtensionPutid              : Int := 35
def idExtensionRelease            : Int := 36
def idFileGetfile                 : Int := 37
def idFileGetvariable             : Int := 38
def idFileGetfilenames            : Int := 39
def idFileGetvariablenames        : Int := 40
def idFileExecute                 : Int := 41
def idFileCopy                    : Int := 42
def idFileDelete                  : Int := 43
def idFileMove                    : Int := 44
def idFileRun                     : Int := 45
def idFileGetdatecreated          : Int := 46
def idFileGetdatelastaccessed     : Int := 47
def idFileGetdatelastmodified     : Int := 48
def idFileGetpath                 : Int := 49
def idFileGetsize                 : Int := 50
def idFileGettype                 : Int := 51
def idFileGetvalue                : Int := 52
def idFilePutvalue                : Int := 53
def idFileGetattribute            : Int := 54
def idFileGethelp                 : Int := 55
def idFileGetname                 : Int := 56
def idFileGettag                  : Int := 57
def idFilePuttag                  : Int := 58
def idFileGetid                   : Int := 59
def idFilePutid                   : Int := 60
def idFileRelease                 : Int := 61
def idRobotGetvariable            : Int := 62
def idRobotGetvariablenames       : Int := 63
def idRobotExecute                : Int := 64
def idRobotAccelerate             : Int := 65
def idRobotChange                 : Int := 66
def idRobotChuck                  : Int := 67
def idRobotDrive                  : Int := 68
def idRobotGohome                 : Int := 69
def idRobotHalt                   : Int := 70
def idRobotHold                   : Int := 71
def idRobotMove                   : Int := 72
def idRobotRotate                 : Int := 73
def idRobotSpeed                  : Int := 74
def idRobotUnchuck                : Int := 75
def idRobotUnhold                 : Int := 76
def idRobotGetattribute           : Int := 77
def idRobotGethelp                : Int := 78
def idRobotGetname                : Int := 79
def idRobotGettag                 : Int := 80
def idRobotPuttag                 : Int := 81
def idRobotGetid                  : Int := 82
def idRobotPutid                  : Int := 83
def idRobotRelease                : Int := 84
def idTaskGetvariable             : Int := 85
def idTaskGetvariablenames        : Int := 86
def idTaskExecute                 : Int := 87
def idTaskStart                   : Int := 88
def idTaskStop                    : Int := 89
def idTaskDelete                  : Int := 90
def idTaskGetfilename             : Int := 91
def idTaskGetattribute            : Int := 92
def idTaskGethelp                 : Int := 93
def idTaskGetname                 : Int := 94
def idTaskGettag                  : Int := 95
def idTaskPuttag                  : Int := 96
def idTaskGetid                   : Int := 97
def idTaskPutid                   : Int := 98
def idTaskRelease                 : Int := 99
def idVariableGetdatetime         : Int := 100
def idVariableGetvalue            : Int := 101
def idVariablePutvalue            : Int := 102
def idVariableGetattribute        : Int := 103
def idVariableGethelp             : Int := 104
def idVariableGetname             : Int := 105
def idVariableGettag              : Int := 106
def idVariablePuttag              : Int := 107
def idVariableGetid               : Int := 108
def idVariablePutid               : Int := 109
def idVariableGetmicrosecond      : Int := 110
def idVariableRelease             : Int := 111
def idCommandExecute              : Int := 112
def idCommandCancel               : Int := 113
def idCommandGettimeout           : Int := 114
def idCommandPuttimeout           : Int := 115
def idCommandGetstate             : Int := 116
def idCommandGetparameters        : Int := 117
def idCommandPutparameters        : Int := 118
def idCommandGetresult            : Int := 119
def idCommandGetattribute         : Int := 120
def idCommandGethelp              : Int := 121
def idCommandGetname              : Int := 122
def idCommandGettag               : Int := 123
def idCommandPuttag               : Int := 124
def idCommandGetid                : Int := 125
def idCommandPutid                : Int := 126
def idCommandRelease              : Int := 127
def idMessageReply                : Int := 128
def idMessageClear                : Int := 129
def idMessageGetdatetime          : Int := 130
def idMessageGetdescription       : Int := 131
def idMessageGetdestination       : Int := 132
def idMessageGetnumber            : Int := 133
def idMessageGetserialnumber      : Int := 134
def idMessageGetsource            : Int := 135
def idMessageGetvalue             : Int := 136
def idMessageRelease              : Int := 137

end Bcap
