import DensoRobot.Common.Variant

open HRESULT

namespace Robot

-- The members of a `DensoVariable` that reading it works with. Times are in nanoseconds. The
-- product that `m_Duration` is set to is computed in an `int`, and the `double` holds it exactly.
structure DensoVariable where
  vt          : Nat
  read        : Bool
  write       : Bool
  duration    : Int
  pubTimePrev : Int
  serving     : Bool

inductive VariableEvent
  | execGetValue (time : Int)
  | publish (value : Variant)

namespace DensoVariable

-- The types of a value that there are publishers and subscriptions for.
def messageTypes : List Nat :=
  [VarType.word false .i4, VarType.word false .r4, VarType.word false .r8, VarType.word false .bstr,
    VarType.word false .bool, VarType.word true .r4, VarType.word true .r8]

-- The constructor, which is called at the time `now`.
def create (vt : Nat) (read write : Bool) (duration now : Int) : DensoVariable where
  vt          := vt
  read        := read
  write       := write
  duration    := i32 (wordOfInt (duration * 1000000))
  pubTimePrev := now
  serving     := false

def startService (mode : Int) (v : DensoVariable) : HRESULT × DensoVariable :=
  if mode ≠ 0 then
    (sFalse, v)
  else if (v.read ∨ v.write) ∧ v.vt ∉ messageTypes then
    (eFail, v)
  else
    (sOk, { v with serving := true })

-- `Update` at the time `pubTimeCur`, where `ret` is what `ExecGetValue` would return.
def update (pubTimeCur : Int) (ret : HRESULT × Variant) (v : DensoVariable) :
    Bool × List VariableEvent × DensoVariable :=
  if ¬v.serving then
    (false, [], v)
  else if v.read ∧ v.duration < pubTimeCur - v.pubTimePrev then
    let (hr, vntRet) := ret
    let published :=
      if Succeeded hr ∧ vntRet.vt = v.vt ∧ v.vt ∈ messageTypes then [.publish vntRet] else []
    (true, .execGetValue pubTimeCur :: published, { v with pubTimePrev := pubTimeCur })
  else
    (true, [], v)

def updates : List (Int × HRESULT × Variant) → DensoVariable → List VariableEvent
  | [],                         _ => []
  | (pubTimeCur, ret) :: calls, v =>
    let (_, events, v) := v.update pubTimeCur ret
    events ++ updates calls v

end DensoVariable
end Robot
