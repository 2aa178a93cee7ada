import DensoRobot.Bcap.Api

open HRESULT

-- What the calls of the client come to, irrespective of the formats.
namespace Bcap

def VaArg.toVariant : VaArg → Variant
  | int val     => .scalar .i4 val
  | double val  => .scalar .r4 val
  | bstr val    => .bstr val
  | variant val => val
  | pointer _   => .init false .empty

namespace Api

namespace Function

-- The parameters whose values are sent.
def sent : Function → List Param
  | releases _ _ _ => [.uint32]
  | f              => f.params

-- What the pointer at the end of the arguments of `invoke_function` points to.
def result : Function → Option Param
  | calls _ _ _ _ | releases _ _ _ => none
  | gets _ _ result _ _            => some result
  | creates _ _ _ _                => some .uint32

end Function

-- The place that the result is received into.
def slotFor : Option Var → Option Variant
  | some (.variant slot) => slot
  | _                    => some (.init false .empty)

-- The value of a response, assigned to a variable of its type.
def assign (host : Host) (next : Nat) : Var → Option Variant → Exec Var
  | .int _,  some (.scalar .i4 lVal) => pure <| .int lVal
  | .bstr _, some (.bstr bstrVal)    => do
    return .bstr (← sysAllocString host (bstrVal.map Bstr.chars) next).1
  | target,  _                       => pure target

-- What the variable for the result holds after a call that returned `hr`, and whose response was
-- received into `slot`.
def receive (host : Host) (hr : HRESULT) (slot : Option Variant) (next : Nat) : Var → Exec Var
  | .variant _ => pure <| .variant slot
  | target     => if Failed hr then pure target else assign host next target slot

-- What is left of a response is released.
def release : Option Var → Option Variant → Exec (List Nat)
  | some (.variant _), _      => pure []
  | _,                 some v => variantClear v
  | _,                 none   => throw .uninit

section

variable (host : Host) (fuel : Nat) (port : Port σ)

-- A request with the given arguments, whose result goes to `target`.
def request (client : Client) (id : Int) (vs : List Variant) (target : Option Var)
    (next nextRet : Nat) (state : σ) : Exec (HRESULT × Option Var × Client × σ) := do
  let (vntArg, next) := if 0 < vs.length then host.alloc next else (some 0, next)
  match vntArg with
  | none      => return (eOutOfMemory, target, client, state)
  | some addr =>
    let packetRecv : BcapPacket := ⟨0, 0, 0, 1, some ⟨0, [slotFor target]⟩⟩
    let (hr, client, packetRecv, state) ←
      sendReceive host fuel port client (.ofArgs 0 0 id addr vs) packetRecv next state
    let received ← target.mapM <| receive host hr packetRecv.firstSlot nextRet
    let _ ← release target packetRecv.firstSlot
    return (hr, received, client, state)

-- The handle that a function releases is the argument that it sends.
def Function.perform (f : Function) (args : List VaArg) (var : Option Var) (next nextRet : Nat)
    (client : Client) (state : σ) : Exec (HRESULT × Option Var × Client × σ) :=
  match f, var with
  | .creates _ _ _ _, none | .releases _ _ _, none => pure (eInvalidArg, none, client, state)
  | .releases id _ _, some (.int h)                => do
    let (hr, _, client, state) ←
      request host fuel port client id [.scalar .i4 h] none next nextRet state
    return (hr, some <| .int <| if Failed hr then h else 0, client, state)
  | f,                var                          =>
    request host fuel port client f.id (args.map VaArg.toVariant) var next nextRet state

def Call.perform (c : Call) (client : Client) (state : σ) :
    Exec (HRESULT × Option Var × Client × σ) :=
  c.function.perform host fuel port c.args c.var c.next c.nextRet client state

def performCalls : List Call → Client → σ → Exec (List (HRESULT × Option Var) × Client × σ)
  | [],      client, state => pure ([], client, state)
  | c :: cs, client, state => do
    let (hr, var, client, state) ← c.perform host fuel port client state
    let (rs, client, state) ← performCalls cs client state
    return ((hr, var) :: rs, client, state)

end

end Api
end Bcap
