import DensoRobot.Robot.SlaveMove

open HRESULT

namespace Robot

-- `E_BUF_FULL`
def eBufFull : HRESULT := i32 0x83201483

-- The members of a `DensoRobotControl` that its loop works with, and those of its robot.
-- The type of a joint is 0 if it is prismatic, and 1 if it is revolute.
structure Control where
  robotJoints : Nat
  type        : Nat → Int
  mode        : Int
  joint       : List Nat
  recvfmt     : Int
  received    : Received

namespace Control

-- The format that `Initialize` sets so that it contains the joints.
def jointFormat (recvFormat : Int) : Int :=
  let type :=
    match poseBits recvFormat with
    | 2 | 4 | 5 => recvFormat
    | 1         => 4
    | 3         => 5
    | _         => 2
  if type ≠ recvFormat then recvFormat - poseBits recvFormat + type else recvFormat

-- The state after `Initialize`, where `values` are those of the array that `HighCurJntEx` answered.
def initialized (robotJoints : Nat) (type : Nat → Int) (mode recvFormat : Int) (values : List Nat) :
    Control where
  robotJoints := robotJoints
  type        := type
  mode        := mode
  joint       := values.drop 1
  recvfmt     := jointFormat recvFormat
  received    := .init

-- The answer to `HighCurJntEx` replaces the joints if it is an array of floating point numbers.
-- Without any number in it, the memory for as many joints as 2^32 - 1 is written to.
def execCurJnt (answer : HRESULT × Variant) (joint : List Nat) : Exec (HRESULT × List Nat) :=
  let (hr, vntRet) := answer
  if Succeeded hr ∧ vntRet.vt = vtR8s then do
    let num := (← parray vntRet).cElements
    if num = 0 then throw .write else return (hr, (doubles vntRet num).drop 1)
  else
    return (hr, joint)

-- `created` is the result of `CreateSendParameter`.
def execSlaveMove (created : HRESULT) (answer : HRESULT × Variant) (c : Control) :
    Exec (HRESULT × Control) :=
  let (hr, vntRet) := answer
  if Failed created then
    return (created, c)
  else if Succeeded hr then do
    let (hrTmp, received) ← parseRecvParameter c.recvfmt vntRet c.received
    let c := { c with received, joint := received.pose.joint }
    return (if Failed hrTmp then hrTmp else hr, c)
  else
    return (hr, c)

-- The joints that `read` takes for positions are those that can move.
def Indexed (c : Control) : Prop :=
  ∀ i < c.robotJoints, c.type i = 0 ∨ c.type i = 1 → i < c.joint.length

instance (c : Control) : Decidable c.Indexed :=
  inferInstanceAs (Decidable (∀ i < c.robotJoints, _))

def read (answer : HRESULT × Variant) (c : Control) : Exec Control := do
  let joint ← if c.mode = 0 then Prod.snd <$> execCurJnt answer c.joint else pure c.joint
  let c := { c with joint }
  if c.Indexed then return c else throw .read

-- `after` is the mode that `ChangeModeWithClearError` leads to if the controller has an error.
def write (created : HRESULT) (answer : HRESULT × Variant) (after : Option Int) (c : Control) :
    Exec Control :=
  if c.mode ≠ 0 then do
    let (hr, c) ← execSlaveMove created answer c
    if Failed hr ∧ hr ≠ eBufFull then return { c with mode := after.getD c.mode } else return c
  else
    return c

-- What is called, with what the controller answers.
inductive Call
  | read (answer : HRESULT × Variant)
  | write (created : HRESULT) (answer : HRESULT × Variant) (after : Option Int)
  | changeMode (mode : Int)

def step (c : Control) : Call → Exec Control
  | .read answer                => c.read answer
  | .write created answer after => c.write created answer after
  | .changeMode mode            => return { c with mode }

end Control
end Robot
