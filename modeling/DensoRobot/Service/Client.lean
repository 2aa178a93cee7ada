import DensoRobot.Bcap.Calls
import DensoRobot.Service.ExecFunction

open HRESULT Bcap

namespace BcapService

-- Each case of the `switch` calls the function of the client that is named like its ID.
def functionOf (funcId : Int) : Option Api.Function :=
  Api.Function.bcapFunctions.find? fun f => f.id = funcId

-- What reading a member of an argument yields, where a pointer is read as what it points to.
def Member.read (address : Nat → Nat) : Member → Variant → Exec VaArg
  | ulVal,   v            => pure <| .int (BcapService.ulVal address v)
  | lVal,    v            => pure <| .int (BcapService.ulVal address v)
  | fltVal,  v            => pure <| .double (BcapService.ulVal address v)
  | bstrVal, .bstr val    => pure <| .bstr val
  | bstrVal, .nullArray _ => pure <| .bstr none
  | bstrVal, .scalar _ 0  => pure <| .bstr none
  | bstrVal, _            => throw .read
  | self,    v            => pure <| .variant v

-- The member of `vntRet` that the pointer to a result points to, before the call.
def retVar : Api.Param → Var
  | .uint32 | .int32 | .float => .int 0
  | .bstr                     => .bstr none
  | .variant                  => .variant (some (.init false .empty))

-- `vntRet` with the type that is set for a result and the member that the call wrote to.
def vntRet : (result : Option Api.Param) → (var : Option Var) → Option Variant
  | some .uint32,  some (.int ulVal)    => some (.scalar .ui4 ulVal)
  | some .int32,   some (.int lVal)     => some (.scalar .i4 lVal)
  | some .bstr,    some (.bstr bstrVal) => some (.bstr bstrVal)
  | some .variant, some (.variant slot) => slot
  | _,             _                    => some (.init false .empty)

-- A call of `ExecFunction`, with the numbers of the blocks of memory that the client gets.
structure Execution where
  funcId  : Int
  args    : List Variant
  next    : Nat
  nextRet : Nat

section

variable (host : Host) (fuel : Nat) (port : Port σ) (address : Nat → Nat)

-- A function that releases an object gets the pointer to the handle.
def Execution.call (e : Execution) (f : Api.Function) (passed : List VaArg) (client : Client)
    (state : σ) : Exec (HRESULT × Option Var × Client × σ) :=
  match f, passed with
  | .releases id argc format, .int h :: _ =>
    (Api.Function.releases id argc format).run host fuel port [] (some (.int h)) e.next e.nextRet
      client state
  | .releases _ _ _,          _           => throw .read
  | f,                        passed      =>
    f.run host fuel port passed (f.result.map retVar) e.next e.nextRet client state

-- The result and `vntRet`, with the handles that are remembered afterwards.
def Execution.run (e : Execution) (s : BcapService) (client : Client) (state : σ) :
    Exec ((HRESULT × Option Variant) × BcapService × Client × σ) :=
  match branches.lookup e.funcId, functionOf e.funcId with
  | some branch, some f =>
    if e.args.length < branch.params.length then
      pure ((eBadIndex, vntRet f.result (f.result.map retVar)), s, client, state)
    else do
      let passed ← (branch.params.zip e.args).mapM fun p => p.1.read address p.2
      let (hr, var, client, state) ← e.call host fuel port f passed client state
      let ret := vntRet f.result var
      let reply : Reply := ⟨hr, (ret.map (ulVal address)).getD 0⟩
      return ((hr, ret), (execFunction address e.funcId e.args reply s).2, client, state)
  | _,           _      => pure ((eInvalidArg, some (.init false .empty)), s, client, state)

-- Calls that are made one after the other.
def runAll : List Execution → BcapService → Client → σ →
    Exec (List (HRESULT × Option Variant) × BcapService × Client × σ)
  | [],      s, client, state => pure ([], s, client, state)
  | e :: es, s, client, state => do
    let (r, s, client, state) ← e.run host fuel port address s client state
    let (rs, s, client, state) ← runAll es s client state
    return (r :: rs, s, client, state)

-- An argument in the type that the client sends it in.
def sentAs : Api.Param → Variant → Variant
  | .uint32, v | .int32, v => .scalar .i4 (ulVal address v)
  | .float,  v             => .scalar .r4 (ulVal address v)
  | .bstr,   v             => v
  | .variant, v            => v

-- What a call comes to: a request with the arguments that the function declares.
def Execution.perform (e : Execution) (s : BcapService) (client : Client) (state : σ) :
    Exec ((HRESULT × Option Variant) × BcapService × Client × σ) :=
  match functionOf e.funcId with
  | none   => pure ((eInvalidArg, some (.init false .empty)), s, client, state)
  | some f =>
    if e.funcId = idServiceStart ∨ e.funcId = idServiceStop then
      pure ((eInvalidArg, some (.init false .empty)), s, client, state)
    else if e.args.length < f.sent.length then
      pure ((eBadIndex, vntRet f.result (f.result.map retVar)), s, client, state)
    else do
      let (hr, var, client, state) ← Api.request host fuel port client e.funcId
        (List.zipWith (sentAs address) f.sent e.args) (f.result.map retVar) e.next e.nextRet state
      let ret := vntRet f.result var
      let reply : Reply := ⟨hr, (ret.map (ulVal address)).getD 0⟩
      return ((hr, ret), (execFunction address e.funcId e.args reply s).2, client, state)

def performAll : List Execution → BcapService → Client → σ →
    Exec (List (HRESULT × Option Variant) × BcapService × Client × σ)
  | [],      s, client, state => pure ([], s, client, state)
  | e :: es, s, client, state => do
    let (r, s, client, state) ← e.perform host fuel port address s client state
    let (rs, s, client, state) ← performAll es s client state
    return (r :: rs, s, client, state)

end
end BcapService
