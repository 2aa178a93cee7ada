import DensoRobot.Bcap.Client
import DensoRobot.Common.Copy
import DensoRobot.Device.ConnParam

open HRESULT Device

namespace Bcap

-- A variable of the caller that a result is written to.
inductive Var
  | int (val : Nat)
  | bstr (val : Option Bstr)
  | variant (slot : Option Variant)

-- An argument that follows the format of `invoke_function`. A `float` is given by its bits, and a
-- pointer by what it points to.
inductive VaArg
  | int (val : Nat)
  | double (val : Nat)
  | bstr (val : Option Bstr)
  | variant (val : Variant)
  | pointer (target : Option Var)

-- How an argument of the type that a format asks for is read, or `none` in the default case.
def vaArg (vt : Int) : Option (VaArg → Exec Variant) :=
  if vt = VarType.i4.code then
    some fun arg => match arg with
      | .int val => pure <| .scalar .i4 val
      | _        => throw .read
  else if vt = VarType.r4.code then
    some fun arg => match arg with
      | .double val => pure <| .scalar .r4 val
      | _           => throw .read
  else if vt = VarType.bstr.code then
    some fun arg => match arg with
      | .bstr val => pure <| .bstr val
      | _         => throw .read
  else if vt = VarType.variant.code then
    some fun arg => match arg with
      | .variant val => pure val
      | _            => throw .read
  else
    none

-- The loop that sets the input parameters, where `i` of them have been set. It ends with the others
-- and with the arguments that are left, unless the format asks for a type that is not known.
def setArgs (argc : Nat) : (list : List VaArg) → (chArg : List Nat) → (i : Nat) →
    Exec (Option (List Variant × List VaArg))
  | list, chArg, i =>
    if chArg = [] ∧ argc ≤ i then
      pure <| some ([], list)
    else
      match vaArg (atoi (chArg.takeWhile (· ≠ 44))) with
      | none      => pure none
      | some read =>
        if argc ≤ i then
          throw .write
        else
          match list with
          | []          => throw .read
          | arg :: list => do
            let v ← read arg
            let rest ← setArgs argc list (chArg.dropWhile (· ≠ 44)).tail (i + 1)
            return rest.map fun (vs, list) => (v :: vs, list)

-- The part of a format behind the `:`, if there is one.
def chRet (format : List Nat) : Option (List Nat) :=
  match format.dropWhile (· ≠ 58) with
  | []       => none
  | _ :: ret => some ret

-- The type of the result, and the pointer to the variable for it.
def resultPointer (chRet : Option (List Nat)) (list : List VaArg) : Exec (Int × Option Var) :=
  match chRet, list with
  | none,     _                    => pure (0, none)
  | some ret, .pointer target :: _ => pure (atoi ret, target)
  | some _,   _                    => throw .read

-- packet_recv.args
def responseSlot (vt : Int) (pRet : Option Var) : Exec (Option Variant) :=
  match pRet with
  | some (.variant slot) =>
    pure <| if vt = VarType.variant.code then slot else some (.init false .empty)
  | some _               =>
    if vt = VarType.variant.code then throw .write else pure <| some <| .init false .empty
  | none                 => pure <| some <| .init false .empty

-- The first argument of a packet.
def BcapPacket.firstSlot (q : BcapPacket) : Option Variant :=
  q.args.bind (·.slots.head?.join)

-- What the variable for the result holds after a call that returned `hr`, and whose response was
-- received into `slot`. A `VARIANT` has been received in place.
def storeResult (host : Host) (hr : HRESULT) (vt : Int) (slot : Option Variant) (next : Nat)
    (target : Var) : Exec Var :=
  if vt = VarType.variant.code then
    pure <| .variant slot
  else if Failed hr then
    pure target
  else
    match slot with
    | none        => throw .uninit
    | some vntRet =>
      if vt ≠ vntRet.vt then
        pure target
      else
        match target, vntRet with
        | .int _,  .scalar .i4 lVal => pure <| .int lVal
        | .bstr _, .bstr bstrVal    => do
          return .bstr (← sysAllocString host (bstrVal.map Bstr.chars) next).1
        | _,       _                =>
          if vt = VarType.i4.code ∨ vt = VarType.bstr.code then throw .write else pure target

-- VariantClear(&vntRet);
-- There is nothing to be released if a `VARIANT` has been received in place.
def clearRet (vt : Int) (pRet : Option Var) (slot : Option Variant) : Exec (List Nat) :=
  if pRet.isSome ∧ vt = VarType.variant.code then
    pure []
  else
    match slot with
    | none        => throw .uninit
    | some vntRet => variantClear vntRet

-- The second component is what the variable for the result holds, unless it was not looked at.
-- `next` and `nextRet` are the numbers of the next block of memory in the beginning and after the
-- response was received.
def invokeFunction (host : Host) (fuel : Nat) (port : Port σ) (client : Client) (id : Int)
    (argc : Nat) (format : List Nat) (list : List VaArg) (next nextRet : Nat) (state : σ) :
    Exec (HRESULT × Option Var × Client × σ) := do
  let (vntArg, next) := if 0 < argc then host.alloc next else (some 0, next)
  match vntArg with
  | none      => return (eOutOfMemory, none, client, state)
  | some addr =>
    match ← setArgs argc list (format.takeWhile (· ≠ 58)) 0 with
    | none            => return (eInvalidArg, none, client, state)
    | some (vs, list) =>
      let (vt, pRet) ← resultPointer (chRet format) list
      let packetRecv : BcapPacket := ⟨0, 0, 0, 1, some ⟨0, [← responseSlot vt pRet]⟩⟩
      let (hr, client, packetRecv, state) ←
        sendReceive host fuel port client (.ofArgs 0 0 id addr vs) packetRecv next state
      let written ← pRet.mapM <| storeResult host hr vt packetRecv.firstSlot nextRet
      let _ ← clearRet vt pRet packetRecv.firstSlot
      return (hr, written, client, state)

end Bcap
