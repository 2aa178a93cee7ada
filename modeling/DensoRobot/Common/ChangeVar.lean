import DensoRobot.Common.Change
import DensoRobot.Lib.Region

open HRESULT Bytes

namespace VarType

-- The size of the member of the union of a `VARIANT`. A `CY` consists of two `long`s.
def memberSize : VarType → Nat
  | .error   => 4
  | .variant => 0
  | .cy      => 16
  | vt       => (elemSize vt).getD 0

end VarType

-- The number that a pointer is stored as, where `address` tells that of a block of memory.
def Bstr.pointer (address : Nat → Nat) : Option Bstr → Nat
  | none   => 0
  | some b => address b.addr

namespace Variant

variable (address : Nat → Nat)

-- The bytes of the member of the union that belongs to the type.
def member : Variant → List UInt8
  | scalar vt val => toLe vt.memberSize val
  | bstr bstrVal  => toLe 8 (Bstr.pointer address bstrVal)
  | nullArray _   => toLe 8 0
  | rawArray _ psa _ | bstrArray psa _ | variantArray psa _ => toLe 8 (address psa.addr)

-- The bytes of a `VARIANT`. Those that belong to no member are zero.
def image (v : Variant) : List UInt8 :=
  let bytes := v.member address
  toLe 2 v.vt ++ List.replicate 6 0 ++ bytes ++ List.replicate (16 - bytes.length) 0

end Variant

-- What `VariantClear` does to the bytes of a `VARIANT`. It releases the memory behind a pointer,
-- where `owned` tells which ones there is such memory for.
def clearImage (owned : Nat → Bool) (bytes : List UInt8) : Exec Unit :=
  let (isArray, vt) := VarType.ofWord (ofLe (bytes.take 2))
  let p := ofLe (bytes.drop 8)
  if (isArray ∨ vt = .bstr) ∧ p ≠ 0 ∧ ¬owned p then throw .write else pure ()

-- The destination after a value was to be stored in it, and the value if there is one.
structure Stored where
  val  : Option Variant
  dest : Region
  next : Nat

-- The destination with all values that were stored in it.
structure Filled where
  vals : List Variant
  dest : Region
  next : Nat

section

variable (lib : Libc) (host : Host) (address : Nat → Nat) (owned : Nat → Bool)

-- `VariantCopy` to the place `pos` of the destination.
def copyToDest (src : Variant) (pos : Nat) (dest : Region) (next : Nat) :
    Exec (HRESULT × Stored) := do
  clearImage owned (dest.read pos 24)
  let r ← variantCopy host src next
  return (r.hr, ⟨some r.dest, dest.put pos (r.dest.image address), r.next⟩)

-- `VARIANT_TRUE` or `VARIANT_FALSE`
def truth (boolVal : Nat) : Nat :=
  IntType.int16.word <| if IntType.int16.wrap boolVal ≠ 0 then -1 else 0

-- The `switch` that stores a value of the type `vt`.
def storeMember (vt : VarType) (v : Variant) (pos : Nat) (dest : Region) (next : Nat) :
    Exec Stored :=
  match vt, v with
  | .variant, v => do
    let (_, stored) ← copyToDest host address owned v pos dest next
    return stored
  | .bstr, .bstr bstrVal => do
    let (bstrVal, next) ← sysAllocString host (bstrVal.map Bstr.chars) next
    let v := .bstr bstrVal
    return ⟨some v, dest.put pos (v.member address), next⟩
  | .bool, .scalar _ val =>
    let v := .scalar .bool (truth val)
    pure ⟨some v, dest.put pos (v.member address), next⟩
  | vt, v =>
    if vt.isBlock then pure ⟨some v, dest.put pos (v.member address), next⟩
    else pure ⟨none, dest, next⟩

-- `ChangeVarType` for a variant that is not an array. What the copy of the variant returns is
-- ignored.
def changeSingle (src : Variant) (vt : VarType) (pos : Nat) (dest : Region) (next : Nat) :
    Exec Stored := do
  let tmp ← variantCopy host src next
  let r ←
    if vt = .variant then pure { tmp with hr := sOk }
    else variantChangeType lib host none tmp.dest false vt tmp.next
  let stored ←
    if Failed r.hr then pure ⟨none, dest, r.next⟩
    else storeMember host address owned vt r.dest pos dest r.next
  let _ ← variantClear r.dest
  return stored

-- The variant for an element of an array, if it has one of the types that are known. The pointer to
-- the data is taken for one to members, where a `CY` is longer than the element of an array.
def loadElement (src : Variant) (i next : Nat) : Exec (Option Variant × Nat) :=
  match src with
  | .rawArray vt psa data =>
    let size := vt.memberSize
    if !vt.isBlock then pure (none, next)
    else if psa.cap * psa.cbElements < size * (i + 1) then throw .read
    else pure (some (.scalar vt (ofLe (data.window (size * i) size))), next)
  | .bstrArray psa data => do
    if psa.cap ≤ i then
      throw .read
    let (bstrVal, next) ← sysAllocString host ((data.getD i none).map Bstr.chars) next
    return (some (.bstr bstrVal), next)
  | .variantArray psa data => do
    if psa.cap ≤ i then
      throw .read
    let r ← variantCopy host (data.getD i (.init false .empty)) next
    return (some r.dest, r.next)
  | _ => throw .read

-- Stores an element at `pos`.
def changeElement (tmp : Variant) (vt : VarType) (pos : Nat) (dest : Region) (next : Nat) :
    Exec Stored :=
  if vt = .variant then do
    let (hr, stored) ← copyToDest host address owned tmp pos dest next
    return if Failed hr then { stored with val := none } else stored
  else if tmp.isArray then
    pure ⟨none, dest, next⟩
  else
    changeSingle lib host address owned tmp vt pos dest next

-- The loop over the elements, `n` of which are left from the one at `i` on.
def changeElements (src : Variant) (cbElements : Nat) (vt : VarType) (dwSize : Nat) :
    (n i pos : Nat) → Filled → Exec Filled
  | 0,     _, _,   f => pure f
  | n + 1, i, pos, f => do
    let (tmp, next) ← loadElement host src i f.next
    match tmp with
    | none     => return { f with next }
    | some tmp => do
      let stored ← changeElement lib host address owned tmp vt pos f.dest next
      let _ ← variantClear tmp
      let f' : Filled := ⟨f.vals ++ stored.val.toList, stored.dest, stored.next⟩
      if stored.val.isNone || dwSize ≤ f'.vals.length then return f'
      else changeElements src cbElements vt dwSize n (i + 1) (pos + cbElements) f'

-- The header of an array.
def Variant.psa : Variant → Option ArrayHeader
  | .rawArray _ psa _ | .bstrArray psa _ | .variantArray psa _ => some psa
  | .scalar _ _ | .bstr _ | .nullArray _                       => none

-- The values that were stored tell the result, which is their number.
def changeVarType (src : Variant) (vt : VarType) (dwSize : Nat) (dest : Region) (next : Nat) :
    Exec Filled :=
  if dwSize = 0 then
    pure ⟨[], dest, next⟩
  else if src.isArray then
    match src.psa with
    | none     => throw .read
    | some psa =>
      let lMax := (i32 psa.cElements).toNat
      changeElements lib host address owned src psa.cbElements vt dwSize lMax 0 0 ⟨[], dest, next⟩
  else do
    let stored ← changeSingle lib host address owned src vt 0 dest next
    return ⟨stored.val.toList, stored.dest, stored.next⟩

end
