import DensoRobot.Common.Change
import DensoRobot.Robotalk.Packet

open HRESULT Bytes Bcap

namespace Robotalk

-- `MINITP_COMMAND`

def colorFg    : UInt8 := 0x10
def colorBg    : UInt8 := 0x11
def colorFill  : UInt8 := 0x12
def drawString : UInt8 := 0x20
def drawLine   : UInt8 := 0x30
def drawRect   : UInt8 := 0x31

-- The size of `data` in `TPComm_DrawMiniTP`.
def drawSize : Nat := 248

-- The calls that deliver the parameters of the commands.
structure DrawCalls where
  -- `ChangeVarType` to `VT_VARIANT` and to `VT_UI1`: the values that it counts
  variants   : Variant → (dwSize : Nat) → List Variant
  bytes      : Variant → (dwSize : Nat) → List UInt8
  -- `VariantChangeType` in place
  changeType : Variant → VarType → HRESULT × Variant

structure Drawing where
  hr      : HRESULT
  data    : List UInt8
  lenData : Nat

-- The members of the union of a `VARIANT`.

def bVal : Variant → UInt8
  | .scalar _ val => UInt8.ofNat val
  | _             => 0

def bstrVal : Variant → Option Bstr
  | .bstr bstrVal => bstrVal
  | _             => none

-- The characters of a string. There are none for `NULL`, and `wcstombs` is told to write none then.
def text : Option Bstr → List Nat
  | none      => []
  | some bstr => wcs bstr.chars

-- Writes to `data`.
def store (data : List UInt8) (i : Nat) (bytes : List UInt8) : Exec (List UInt8) :=
  if i + bytes.length ≤ data.length then pure (data.splice i bytes) else throw .write

section

variable (lib : Libc) (calls : DrawCalls)

-- Changes the parameters of a string, where all but the first are numbers.
def changeSubs (hr : HRESULT) (vt : VarType) :
    List Variant → Except HRESULT (HRESULT × List Variant)
  | []      => .ok (hr, [])
  | v :: vs =>
    let (hr, v) := calls.changeType v vt
    if Failed hr then
      .error hr
    else do
      let (hr, vs) ← changeSubs hr .ui1 vs
      return (hr, v :: vs)

def drawColorCommand (code : UInt8) (par : Variant) (d : Drawing) : Exec (Except HRESULT Drawing) :=
  if drawSize < d.lenData + 3 then
    pure (.error eOutOfMemory)
  else
    let (hr, par) := calls.changeType par .ui1
    if Failed hr then
      pure (.error hr)
    else do
      let data ← store d.data d.lenData [code, 1, bVal par]
      return .ok ⟨hr, data, u8 (d.lenData + 3)⟩

def drawStringCommand (code : UInt8) (par : Variant) (d : Drawing) :
    Exec (Except HRESULT Drawing) :=
  let subs := calls.variants par 5
  if subs.length < 5 then
    pure (.error eInvalidArg)
  else
    match changeSubs calls d.hr .bstr (subs.take 5) with
    | .error hr      => pure (.error hr)
    | .ok (hr, subs) =>
      let sub (i : Nat) : Variant := subs.getD i (.init false .empty)
      let bstr := bstrVal (sub 0)
      let ulLenStr := sysStringLen bstr
      let ulLenCmd := u32 (ulLenStr * 2 + 5)
      if drawSize < u32 (d.lenData + ulLenCmd + 2) then
        pure (.error eOutOfMemory)
      else do
        let data ← store d.data d.lenData
          [code, UInt8.ofNat ulLenCmd, bVal (sub 1), bVal (sub 2), bVal (sub 3),
            UInt8.ofNat ulLenStr]
        let data ← store data (d.lenData + 6) (lib.wcstombsInto (text bstr) ulLenStr)
        let data ← store data (d.lenData + ulLenStr + 6) [0]
        let data ← store data (d.lenData + ulLenStr + 7) (List.replicate ulLenStr <| bVal (sub 4))
        return .ok ⟨hr, data, u8 (d.lenData + u8 (ulLenCmd + 2))⟩

-- The commands `DRAW_LINE` and `DRAW_RECT`.
def drawShapeCommand (code : UInt8) (par : Variant) (d : Drawing) : Exec (Except HRESULT Drawing) :=
  let sub := calls.bytes par 4
  if sub.length < 4 then
    pure (.error eInvalidArg)
  else if drawSize < d.lenData + 6 then
    pure (.error eOutOfMemory)
  else do
    let data ← store d.data d.lenData ([code, 4] ++ sub.take 4)
    return .ok ⟨d.hr, data, u8 (d.lenData + 6)⟩

-- A turn of the loop over the commands.
def drawCommand (cmd : Variant) (d : Drawing) : Exec (Except HRESULT Drawing) :=
  if ¬cmd.isArray then
    pure (.error eInvalidArg)
  else
    match calls.variants cmd 2 with
    | par₀ :: par₁ :: _ =>
      let (hr, par₀) := calls.changeType par₀ .ui1
      let code := bVal par₀
      if Failed hr then
        pure (.error hr)
      else if code = colorFg ∨ code = colorBg ∨ code = colorFill then
        drawColorCommand calls code par₁ { d with hr }
      else if code = drawString then
        drawStringCommand lib calls code par₁ { d with hr }
      else if code = drawLine ∨ code = drawRect then
        drawShapeCommand calls code par₁ { d with hr }
      else
        pure (.error eInvalidArg)
    | _ => pure (.error eInvalidArg)

def drawCommands : List Variant → Drawing → Exec (Except HRESULT Drawing)
  | [],          d => pure (.ok d)
  | cmd :: cmds, d => do
    match ← drawCommand lib calls cmd d with
    | .error hr => return .error hr
    | .ok d     => drawCommands cmds d

-- `TPComm_DrawMiniTP` up to the call of `send_receive`, which takes the first `len_data` bytes.
-- What `data` holds before is not known. Without any command `hr` is read that nothing was written
-- to.
def drawMiniTp (data : List UInt8) (commands : Variant) : Exec (Except HRESULT (List UInt8)) :=
  if commands.vt ≠ VarType.word true .variant then
    pure (.error eInvalidArg)
  else
    match commands with
    | .variantArray psa cmds =>
      if psa.cElements = 0 then
        throw .uninit
      else if psa.cap < psa.cElements then
        throw .read
      else do
        let zeros := List.replicate (psa.cElements - cmds.length) (.init false .empty)
        match ← drawCommands lib calls ((cmds ++ zeros).take psa.cElements) ⟨sOk, data, 0⟩ with
        | .error hr => return .error hr
        | .ok d     => return if Failed d.hr then .error d.hr else .ok (d.data.take d.lenData)
    | _ => throw .read

end
end Robotalk
