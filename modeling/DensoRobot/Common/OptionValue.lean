import DensoRobot.Common.Change

open HRESULT

-- `GetOptionValue`, which looks for the value of a key in a string of options.
namespace OptionValue

-- The characters in the memory of a string.
def cells : Option Bstr → Exec (List Nat)
  | none      => throw .read
  | some bstr => pure (bstr.chars ++ [0])

def load (block : List Nat) (p : Int) : Exec Nat :=
  if 0 ≤ p ∧ p < block.length then pure (block.getD p.toNat 0) else throw .read

-- `memcpy(p, p + 1, sizeof(wchar_t) * n)`, which has to copy the characters from the front to the
-- back, as its two regions overlap.
def moveDown (block : List Nat) (p : Int) (n : Nat) : Exec (List Nat) :=
  if p < 0 ∨ block.length < p + 1 + n then throw .read
  else pure (block.take p.toNat ++ (block.drop (p.toNat + 1)).take n ++ block.drop (p.toNat + n))

-- The beginning and ending character for nest.
def brackets (c : Nat) : Option (Nat × Nat) :=
  if c = 40 ∨ c = 41 then some (40, 41)
  else if c = 91 ∨ c = 93 then some (91, 93)
  else if c = 123 ∨ c = 125 then some (123, 125)
  else if c = 60 ∨ c = 62 then some (60, 62)
  else none

-- The number of blanks that are skipped.
def skipBlanks : List Nat → Exec Nat
  | []      => throw .read
  | c :: cs => if c = 32 then do return (← skipBlanks cs) + 1 else pure 0

-- Overwrites the blanks in front of a position.
def cutBlanks (block : List Nat) : (p : Nat) → Exec (List Nat)
  | 0     => throw .read
  | p + 1 => do if (← load block p) = 32 then cutBlanks (block.set p 0) p else pure block

inductive Found
  | failed
  | missing
  | empty
  | value (bstrOneOpt : Option Bstr) (next : Nat)

-- The local variables, where `bstrTarget` is the memory that `wchTmp` is a position in.
structure Scanner where
  bstrTarget    : List Nat
  wchTmp        : Int
  i             : Nat
  uiLenTarget   : Nat
  iLevelCount   : Int
  wchStart      : Nat
  wchEnd        : Nat
  bGetTitle     : Bool
  uiLenOptTitle : Nat
  uiLenOneOpt   : Nat
  bstrOptTitle  : Option Bstr
  bstrOneOpt    : Option Bstr
  next          : Nat

-- `wchStart` and `wchEnd` are -1 at first.
def Scanner.start (bstrTarget : List Nat) (uiLenTarget : Nat)
    (bstrOptTitle bstrOneOpt : Option Bstr) (next : Nat) : Scanner where
  bstrTarget    := bstrTarget
  wchTmp        := 0
  i             := 0
  uiLenTarget   := uiLenTarget
  iLevelCount   := 0
  wchStart      := 4294967295
  wchEnd        := 4294967295
  bGetTitle     := false
  uiLenOptTitle := 0
  uiLenOneOpt   := 0
  bstrOptTitle  := bstrOptTitle
  bstrOneOpt    := bstrOneOpt
  next          := next

-- How the body of the loop ends: by its end or `continue`, by `break`, or by `goto exit_proc`.
inductive Pass
  | continue (s : Scanner)
  | break (s : Scanner)
  | exit (r : Found)

section

variable (host : Host)

-- Copies a string without the blanks around it.
def trimmed (bstr : Option Bstr) (next : Nat) : Exec (Option Bstr × Nat) := do
  let block ← cells bstr
  let wchPos ← skipBlanks block
  let block ← cutBlanks block (wchPos + wcslen (block.drop wchPos))
  sysAllocString host (some <| block.drop wchPos) next

-- `_wcsicmp`
def sameWord (towlower : Nat → Nat) (s t : Option Bstr) : Exec Bool :=
  match s, t with
  | some s, some t => pure <| (wcs s.chars).map towlower = (wcs t.chars).map towlower
  | _,      _      => throw .read

namespace Scanner

variable (towlower : Nat → Nat) (bstrKey : Option Bstr) (s : Scanner)

-- Removes the current character.
def remove : Exec Scanner := do
  let bstrTarget ← moveDown s.bstrTarget s.wchTmp (s.uiLenTarget - s.i)
  return { s with
    bstrTarget  := bstrTarget
    uiLenTarget := u16 (s.uiLenTarget + 65535)
    i           := u16 (s.i + 65535)
    wchTmp      := s.wchTmp - 1 }

-- `SysAllocStringLen(wchTmp - len, len)`
def copyBehind (len : Nat) : Exec (Option Bstr × Nat) :=
  if s.wchTmp < len then throw .read
  else sysAllocStringLen host (s.bstrTarget.drop (s.wchTmp - len).toNat) len s.next

-- The characters that were counted, unless there are none.
def copyCounted (len : Nat) (bstr : Option Bstr) : Exec (Option Bstr × Nat) :=
  if 0 < len then s.copyBehind host len else pure (bstr, s.next)

def endTitle : Exec Pass :=
  if s.bGetTitle then
    pure (.exit .failed)
  else do
    let (bstrOptTitle, next) ← s.copyCounted host s.uiLenOptTitle s.bstrOptTitle
    return .continue { s with
      bstrOptTitle  := bstrOptTitle
      uiLenOptTitle := 0
      bGetTitle     := true
      next          := next }

def endOption (c : Nat) : Exec Pass := do
  let (bstrOneOpt, next) ← s.copyCounted host s.uiLenOneOpt s.bstrOneOpt
  let (bstrOptTitle, next) ← trimmed host s.bstrOptTitle next
  if ← sameWord towlower bstrOptTitle bstrKey then
    if sysStringLen bstrOneOpt = 0 then
      return .exit .empty
    else
      return .break { s with
        bstrOneOpt   := bstrOneOpt
        uiLenOneOpt  := 0
        bstrOptTitle := bstrOptTitle
        next         := next }
  else if c = 44 then
    let (bstrOptTitle, next) ← sysAllocString host (some []) next
    let (bstrOneOpt, next) ← sysAllocString host (some []) next
    return .continue { s with
      bstrOptTitle  := bstrOptTitle
      uiLenOptTitle := 0
      bstrOneOpt    := bstrOneOpt
      uiLenOneOpt   := 0
      bGetTitle     := false
      next          := next }
  else
    return .exit .missing

def count : Scanner :=
  if s.bGetTitle then { s with uiLenOneOpt := u16 (s.uiLenOneOpt + 1) }
  else { s with uiLenOptTitle := u16 (s.uiLenOptTitle + 1) }

def readOption (c : Nat) : Exec Pass :=
  if s.iLevelCount = 0 ∧ c = 61 then
    s.endTitle host
  else if s.iLevelCount = 0 ∧ (c = 44 ∨ c = 0) then
    s.endOption host towlower bstrKey c
  else
    pure (.continue s.count)

def setNest (c : Nat) : Scanner :=
  if s.iLevelCount = 0 then
    match brackets c with
    | none                    => s
    | some (wchStart, wchEnd) => { s with wchStart := wchStart, wchEnd := wchEnd }
  else
    s

def pass : Exec Pass := do
  let c ← load s.bstrTarget s.wchTmp
  let s := s.setNest c
  let inner := { s with iLevelCount := s.iLevelCount + 1 }
  let outer := { s with iLevelCount := s.iLevelCount - 1 }
  if c = s.wchStart then
    if inner.iLevelCount = 1 then return .continue (← inner.remove)
    else inner.readOption host towlower bstrKey c
  else if c = s.wchEnd then
    if outer.iLevelCount < 0 then return .exit .failed
    else if outer.iLevelCount = 0 then return .continue (← outer.remove)
    else outer.readOption host towlower bstrKey c
  else
    s.readOption host towlower bstrKey c

-- `i++, wchTmp++`
def advance : Scanner :=
  { s with i := u16 (s.i + 1), wchTmp := s.wchTmp + 1 }

-- What follows the loop.
def finish : Exec Found :=
  if s.iLevelCount ≠ 0 then
    pure .failed
  else do
    let (bstrOneOpt, next) ← trimmed host s.bstrOneOpt s.next
    return .value bstrOneOpt next

def scan : (fuel : Nat) → Scanner → Exec Found
  | 0,        _ => throw .fuel
  | fuel + 1, s =>
    if s.uiLenTarget < s.i then
      s.finish host
    else do
      match ← s.pass host towlower bstrKey with
      | .exit r     => return r
      | .break s    => s.finish host
      | .continue s => scan fuel s.advance

end Scanner

section

variable (towlower : Nat → Nat) (fuel : Nat) (bstrSrc bstrKey : Option Bstr)

-- `GetOptionValue` without the conversion of the value.
def findOption : Exec Found := do
  let (bstrTarget, next) ← sysAllocString host (some <| bstrSrc.elim [] Bstr.chars) 0
  let (bstrOptTitle, next) ← sysAllocString host (some []) next
  let (bstrOneOpt, next) ← sysAllocString host (some []) next
  let block ← cells bstrTarget
  (Scanner.start block (sysStringLen bstrTarget) bstrOptTitle bstrOneOpt next).scan
    host towlower bstrKey fuel

def cleared (dest : Variant) : Exec (HRESULT × Option Variant) := do
  let _ ← variantClear dest
  return (sOk, some <| .init false .empty)

def getOptionValue (lib : Libc) (isArray : Bool) (vt : VarType) (pvarDest : Option Variant) :
    Exec (HRESULT × Option Variant) :=
  match bstrKey, pvarDest with
  | some _, some dest => do
    match ← findOption host towlower fuel bstrSrc bstrKey with
    | .failed     => return (eFail, dest)
    | .missing    => cleared dest
    | .empty      =>
      if isArray = false ∧ vt = .bool then return (sOk, some <| .scalar .bool 65535)
      else cleared dest
    | .value bstrOneOpt next => do
      let r ← variantChangeType lib host (some dest) (.bstr bstrOneOpt) isArray vt next
      return (r.hr, some r.dest)
  | _, _ => pure (eInvalidArg, pvarDest)

end

end

end OptionValue
