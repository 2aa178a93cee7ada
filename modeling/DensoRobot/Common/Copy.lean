import DensoRobot.Common.Variant

open HRESULT

def sysAllocString (host : Host) (sz : Option (List Nat)) (next : Nat) : Exec (Option Bstr × Nat) :=
  match sz with
  | none    => pure (none, next)
  | some sz => sysAllocStringLen host sz (wcslen sz) next

-- A destination after it was changed.
structure Changed where
  hr   : HRESULT
  dest : Variant
  next : Nat

namespace VarType

-- The types of arrays that `VariantCopy` copies as a block.
def isBlock : VarType → Bool
  | .i2 | .i4 | .i8 | .r4 | .r8 | .cy | .date | .bool | .ui1 | .ui2 | .ui4 | .ui8 => true
  | _ => false

-- The types of single variants that `VariantCopy` copies as a block.
def isPlain : VarType → Bool
  | .empty | .null | .error => true
  | vt                      => vt.isBlock

end VarType

-- Copies the elements of an array one by one. Without memory there is nothing to write to.
def copyElements (host : Host) (vt : VarType) (psa : ArrayHeader) (next : Nat)
    (copy : ArrayHeader → Nat → Exec (Variant × Nat)) : Exec Changed :=
  match safeArrayCreateVector host vt psa.lLbound psa.cElements next with
  | (none, next)      =>
    if psa.cElements = 0 then pure ⟨sOk, .nullArray vt, next⟩ else throw .write
  | (some psa', next) =>
    if psa.cap < psa.cElements then
      throw .read
    else if psa'.cap < psa'.cElements then
      throw .write
    else do
      let (dest, next) ← copy psa' next
      return ⟨sOk, dest, next⟩

-- Copies the elements of an array as a block, the size of which is computed in a `uint32_t`.
def copyBlock (host : Host) (vt : VarType) (psa : ArrayHeader) (data : List UInt8) (next : Nat) :
    Exec Changed :=
  let size := u32 (psa.cbElements * psa.cElements)
  match safeArrayCreateVector host vt psa.lLbound psa.cElements next with
  | (none, _)         => throw .read
  | (some psa', next) =>
    if psa.cap * psa.cbElements < size then
      throw .read
    else if psa'.cap * psa'.cbElements < size then
      throw .write
    else
      pure ⟨sOk, .rawArray vt psa' (data.take size), next⟩

def bstrsCopy (host : Host) : List (Option Bstr) → Nat → Exec (List (Option Bstr) × Nat)
  | [],      next => pure ([], next)
  | b :: bs, next => do
    let (b, next) ← sysAllocString host (b.map Bstr.chars) next
    let (bs, next) ← bstrsCopy host bs next
    return (b :: bs, next)

mutual

-- The destination is another variant than the source, and has been cleared.
-- There is nothing to be copied for the elements of an array that were not written to.
def variantCopy (host : Host) : Variant → Nat → Exec Changed
  | .scalar vt val, next =>
    if vt.isPlain then pure ⟨sOk, .scalar vt val, next⟩
    else pure ⟨eBadVarType, .init false .empty, next⟩
  | .bstr bstrVal, next => do
    let (bstrVal, next) ← sysAllocString host (bstrVal.map Bstr.chars) next
    return ⟨sOk, .bstr bstrVal, next⟩
  | .nullArray _, _ => throw .read
  | .rawArray vt psa data, next =>
    if vt.isBlock then copyBlock host vt psa data next
    else pure ⟨eBadVarType, .init false .empty, next⟩
  | .bstrArray psa data, next =>
    copyElements host .bstr psa next fun psa' next => do
      let (bs, next) ← bstrsCopy host data next
      return (.bstrArray psa' bs, next)
  | .variantArray psa data, next =>
    copyElements host .variant psa next fun psa' next => do
      let (vs, next) ← variantsCopy host data next
      return (.variantArray psa' vs, next)

-- What `VariantCopy` returns for an element is ignored.
def variantsCopy (host : Host) : List Variant → Nat → Exec (List Variant × Nat)
  | [],      next => pure ([], next)
  | v :: vs, next => do
    let r ← variantCopy host v next
    let (vs, next) ← variantsCopy host vs r.next
    return (r.dest :: vs, next)

end
