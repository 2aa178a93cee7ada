import DensoRobot.Lib.Bytes
import DensoRobot.Common.Change

open HRESULT Bytes

namespace Rac

-- The string in a block of memory. Without a zero it is read beyond the block.
def cString (data : List UInt8) : Exec (List UInt8) :=
  if 0 ∈ data then pure (data.takeWhile (· ≠ 0)) else throw .read

-- The string of a variant that has the type of strings.
def bstrVal : Variant → Option Bstr
  | .bstr bstrVal => bstrVal
  | _             => none

-- `*chDest`
inductive Dest
  | null
  | owned (data : List UInt8)
  | freed

def Dest.string : Dest → Exec (List UInt8)
  | null       => throw .read
  | owned data => cString data
  | freed      => throw .read

structure Converted where
  hr     : HRESULT
  chDest : Dest
  next   : Nat

-- The string that is built up, for which there is memory from the first element on, and the size
-- that was asked for.
structure Building where
  text : Option (List UInt8)
  len  : Nat
  next : Nat

def Building.chDest (b : Building) : Dest :=
  b.text.elim .null fun text => .owned (text ++ [0])

def Building.freed (b : Building) : Dest :=
  b.text.elim .null fun _ => .freed

-- What is appended for an element: the strings around its own one, and the number of characters
-- that are added to its length if it is the last element.
structure Part where
  before  : List (List UInt8)
  after   : List UInt8
  added   : Nat
  convert : (next : Nat) → Exec Converted

def strcat (size : Nat) (dest src : List UInt8) : Exec (List UInt8) :=
  if dest.length + src.length < size then pure (dest ++ src) else throw .write

-- The characters of `"%d,"`
def sprintf (vt : Nat) : List UInt8 :=
  (Libc.decimal vt).map UInt8.ofNat ++ [44]

section

variable (lib : Libc) (host : Host)

-- The number of bytes is an `int`.
def convertWideChar2MultiByte (chSrc : Option Bstr) (next : Nat) : Option (List UInt8) × Nat :=
  match chSrc with
  | none     => (none, next)
  | some src =>
    match lib.wcstombs (wcs src.chars) with
    | none       => (none, next)
    | some bytes =>
      let iLen := i32 (bytes.length + 1)
      if 0 < iLen then
        match host.alloc next with
        | (none, next)   => (none, next)
        | (some _, next) => (some (lib.wcstombsInto (wcs src.chars) iLen.toNat), next)
      else
        (none, next)

def convertString (chSrc : Option Bstr) (next : Nat) : Converted :=
  match convertWideChar2MultiByte lib host chSrc next with
  | (none, next)      => ⟨eOutOfMemory, .null, next⟩
  | (some data, next) => ⟨sOk, .owned data, next⟩

-- The loops over the elements of an array, which differ in what they do with the string so far if
-- an element cannot be converted.
def join (frees : Bool) : List Part → Building → Exec Converted
  | [],            b => pure ⟨sOk, b.chDest, b.next⟩
  | part :: parts, b => do
    let r ← part.convert b.next
    if Failed r.hr then
      return ⟨r.hr, if frees then b.freed else b.chDest, r.next⟩
    else
      let chPoint ← r.chDest.string
      let last := parts.isEmpty
      let len := u32 (b.len + chPoint.length + part.added + if last then 0 else 1)
      match host.alloc r.next with
      | (none, next)   => return ⟨eOutOfMemory, .null, next⟩
      | (some _, next) =>
        let after := part.after ++ if last then [] else [44]
        let text ← (part.before ++ [chPoint, after]).foldlM (strcat len) (b.text.getD [])
        join frees parts ⟨some text, len, next⟩

def variantPart (vt : Nat) (convert : Nat → Exec Converted) : Part where
  before  := [[40], sprintf vt]
  after   := [41]
  added   := (sprintf vt).length + 3
  convert := convert

def bstrPart (bstr : Option Bstr) : Part where
  before       := []
  after        := []
  added        := 1
  convert next := pure (convertString lib host bstr next)

-- Each element is changed to a string in place.
def changeElements : List Variant → (next : Nat) → Exec (Except HRESULT (List (Option Bstr)) × Nat)
  | [],      next => pure (.ok [], next)
  | v :: vs, next => do
    let r ← variantChangeType lib host none v false .bstr next
    if Failed r.hr then
      return (.error r.hr, r.next)
    else
      let (bstrs, next) ← changeElements vs r.next
      return (bstrs.map (bstrVal r.dest :: ·), next)

-- The number of elements of an array, all of which are in its memory.
def withCount (psa : ArrayHeader) (k : (cnt : Nat) → Exec Converted) : Exec Converted :=
  let cnt := (i32 (Variant.count psa)).toNat
  if psa.cap < cnt then throw .read else k cnt

-- No memory is served for a negative number of variants.
def convertRaw (vt : VarType) (psa : ArrayHeader) (data : List UInt8) (next : Nat) :
    Exec Converted :=
  if i32 (Variant.count psa) < 0 ∨ host.malloc next = false then
    pure ⟨eOutOfMemory, .null, next + 1⟩
  else
    withCount psa fun cnt => do
      let elements := (List.range cnt).map fun i =>
        Variant.scalar vt (ofLe (data.window (psa.cbElements * i) psa.cbElements))
      let (bstrs, next) ← changeElements lib host elements (next + 1)
      match bstrs with
      | .error hr => return ⟨hr, .null, next⟩
      | .ok bstrs => join host false (bstrs.map (bstrPart lib host)) ⟨none, 0, next⟩

def convertSingle (v : Variant) (next : Nat) : Exec Converted := do
  let r ← variantChangeType lib host (some (.init false .empty)) v false .bstr next
  if Failed r.hr then return ⟨r.hr, .null, r.next⟩
  else return convertString lib host (bstrVal r.dest) r.next

mutual

-- The elements of an array that nothing was written to are empty variants.
def convertVariant2RacStr : Variant → (next : Nat) → Exec Converted
  | .variantArray psa data, next =>
    withCount psa fun cnt =>
      let written := variantParts data
      let empty := variantPart 0 (convertSingle lib host (.scalar .empty 0))
      let parts := written.take cnt ++ List.replicate (cnt - written.length) empty
      join host true parts ⟨none, 0, next⟩
  | .bstrArray psa data, next =>
    withCount psa fun cnt =>
      let bstrs := (List.range cnt).map fun i => data.getD i none
      join host false (bstrs.map (bstrPart lib host)) ⟨none, 0, next⟩
  | .rawArray vt psa data, next => convertRaw lib host vt psa data next
  | .nullArray _, _             => throw .uninit
  | .scalar vt val, next        => convertSingle lib host (.scalar vt val) next
  | .bstr bstrVal, next         => convertSingle lib host (.bstr bstrVal) next

def variantParts : List Variant → List Part
  | []      => []
  | v :: vs => variantPart v.vt (convertVariant2RacStr v) :: variantParts vs

end

end

end Rac
