import DensoRobot.Common.Copy
import DensoRobot.Common.Libc

open HRESULT

-- A number of a C type, which `SubChangeType` takes as `type` and `val`.
inductive Number
  | int (type : IntType) (val : Int)
  | float (bits : Nat)
  | double (bits : Nat)

namespace Number

section

variable (lib : Libc)

def bits : Number → Nat
  | int type _ => type.bits
  | float _    => 32
  | double _   => 64

-- `(val) < (type)limit`
def lt (limit : Int) : Number → Bool
  | int type val => val < type.wrap limit
  | float bits   => lib.float.lt bits (lib.float.ofInt limit)
  | double bits  => lib.double.lt bits (lib.double.ofInt limit)

-- `(type)limit < (val)`
def gt (limit : Int) : Number → Bool
  | int type val => type.wrap limit < val
  | float bits   => lib.float.lt (lib.float.ofInt limit) bits
  | double bits  => lib.double.lt (lib.double.ofInt limit) bits

def toInt (t : IntType) : Number → Int
  | int _ val   => t.wrap val
  | float bits  => lib.float.toInt t bits
  | double bits => lib.double.toInt t bits

def toFloat : Number → Nat
  | int _ val   => lib.float.ofInt val
  | float bits  => bits
  | double bits => lib.narrow bits

def toDouble : Number → Nat
  | int _ val   => lib.double.ofInt val
  | float bits  => lib.widen bits
  | double bits => bits

def isTrue : Number → Bool
  | int _ val   => val ≠ 0
  | float bits  => !lib.float.isZero bits
  | double bits => !lib.double.isZero bits

-- Whether a double lies outside of what a float can tell.
def exceedsFloat : Number → Bool
  | double bits => lib.double.lt bits lib.fltMin || lib.double.lt lib.fltMax bits
  | _           => false

end

end Number

namespace VarType

-- The integer type of the member of a `VARIANT` for integers, dates and truth values.
def intType : VarType → Option IntType
  | i2 | bool      => some .int16
  | i4             => some .int32
  | i8 | cy | date => some .int64
  | ui1            => some .uint8
  | ui2            => some .uint16
  | ui4            => some .uint32
  | ui8            => some .uint64
  | _              => none

-- The member of a `VARIANT` for a type of numbers, whose bits are `val`.
def number (vt : VarType) (val : Nat) : Option Number :=
  match vt with
  | r4 => some (.float val)
  | r8 => some (.double val)
  | vt => vt.intType.map fun t => .int t (t.wrap val)

def isUnsigned : VarType → Bool
  | ui1 | ui2 | ui4 | ui8 => true
  | _                     => false

end VarType

section

variable (lib : Libc) (host : Host)

-- The characters that `Variant2Bstr` prints. The conversions `%ld` and `%lu` read 64 bits.
def printNumber (src : VarType) : Number → List Nat
  | .float bits  => lib.float.print bits
  | .double bits => lib.double.print bits
  | .int type val =>
    let wide : Nat := lib.upper (type.word val) * 2 ^ 32 + type.word val
    match src with
    | .i4   => Libc.decimal (IntType.int64.wrap wide)
    | .ui4  => Libc.decimal (IntType.uint64.wrap wide)
    | .date => lib.printDate val
    | _     => Libc.decimal val

def variant2bstr (src : VarType) (n : Number) (next : Nat) : Exec (Option Bstr × Nat) :=
  sysAllocString host (some <| printNumber lib src n) next

section

variable (src : VarType) (n : Number)

def checkOverflow (t : IntType) : Bool :=
  t.bits < n.bits || src = .r4 || src = .r8

-- The checks for the types with a sign, where `limit` has the limits that are compared with.
def signedOverflow (t limit : IntType) : Bool :=
  checkOverflow src n t && (!src.isUnsigned && n.lt lib limit.low || n.gt lib (limit.high - 1))

-- The checks for the types without a sign, the first of which is not made for one source type.
def unsignedOverflow (t limit : IntType) (sameSize : Option VarType) : Bool :=
  (sameSize ≠ some src && n.lt lib 0) || (checkOverflow src n t && n.gt lib (limit.high - 1))

-- The macro `SubChangeType`, where `SHRT_MIN`, `LONG_MIN` and `LLONG_MIN` and so on are the limits
-- of types with 16, 64 and 64 bits.
def subChangeType (chk isArray : Bool) (dst : VarType) (next : Nat) :
    Exec (Except HRESULT Variant × Nat) :=
  let store (t : IntType) (overflow : Bool) : Exec (Except HRESULT Variant × Nat) :=
    if chk && overflow then pure (.error eOverflow, next)
    else pure (.ok <| .scalar dst <| t.word <| n.toInt lib t, next)
  if isArray then
    pure (.error eBadVarType, next)
  else
    match dst with
    | .empty | .null => pure (.ok <| .init false dst, next)
    | .error         => pure (.error eTypeMismatch, next)
    | .i2            => store .int16 (signedOverflow lib src n .int16 .int16)
    | .i4            => store .int32 (signedOverflow lib src n .int32 .int64)
    | .i8 | .cy      => store .int64 (signedOverflow lib src n .int64 .int64)
    | .r4            =>
      if chk && src = .r8 && n.exceedsFloat lib then pure (.error eOverflow, next)
      else pure (.ok <| .scalar .r4 <| n.toFloat lib, next)
    | .r8            => pure (.ok <| .scalar .r8 <| n.toDouble lib, next)
    | .date          => store .int64 false
    | .bstr          => do
      let (bstrVal, next) ← variant2bstr lib host src n next
      return (.ok <| .bstr bstrVal, next)
    | .bool          =>
      pure (.ok <| .scalar .bool <| IntType.int16.word <| if n.isTrue lib then -1 else 0, next)
    | .ui1           => store .uint8 (unsignedOverflow lib src n .uint8 .uint16 none)
    | .ui2           => store .uint16 (unsignedOverflow lib src n .uint16 .uint16 (some .i2))
    | .ui4           => store .uint32 (unsignedOverflow lib src n .uint32 .uint64 (some .i4))
    | .ui8           => store .uint64 (unsignedOverflow lib src n .uint64 .uint64 (some .i8))
    | _              => pure (.error eBadVarType, next)

end

-- The checks that follow each of the `wcsto..` functions. A `.` may follow an integer.
def checkScanned (dot : Bool) (next : Nat) (erange : Bool) (k : Except HRESULT α) :
    Except HRESULT α :=
  if next ≠ 0 ∧ ¬(dot ∧ next = 46) then .error eTypeMismatch
  else if erange then .error eOverflow
  else k

-- A number that is stored as it was read.
def scanInteger (vt : VarType) (t : IntType) (r : Libc.Scanned) : Except HRESULT Variant :=
  checkScanned true r.next r.erange <| .ok <| .scalar vt <| t.word r.val

-- A number that is read as one of the type `src`, and then changed once more.
def rescanInteger (vt : VarType) (t : IntType) (src : VarType) (r : Libc.Scanned) (next : Nat) :
    Exec (Except HRESULT Variant × Nat) :=
  match checkScanned true r.next r.erange <| .ok <| t.wrap r.val with
  | .error hr => pure (.error hr, next)
  | .ok val   => subChangeType lib host src (.int t val) true false vt next

-- A string that starts with a minus is not read as a number without a sign.
def unlessNegative (bstr : List Nat) (r : Except HRESULT Variant) : Except HRESULT Variant :=
  match r with
  | .error hr => .error hr
  | .ok v     => if bstr.head? = some 45 then .error eOverflow else .ok v

-- The string is not empty.
def bstr2number (isArray : Bool) (vt : VarType) (bstr : List Nat) (next : Nat) :
    Exec (Except HRESULT Variant × Nat) :=
  let scanFloat (t : FloatType) : Except HRESULT Variant :=
    let (val, rest, erange) := t.parse bstr
    checkScanned false (rest.headD 0) erange <| .ok <| .scalar vt val
  if isArray then
    pure (.error eBadVarType, next)
  else
    match vt with
    | .empty | .null => pure (.ok <| .init false vt, next)
    | .error         => pure (.error eTypeMismatch, next)
    | .i2 | .bool    => rescanInteger lib host vt .int32 .i4 (Libc.wcstol bstr) next
    | .i4            => pure (scanInteger vt .int32 <| Libc.wcstol bstr, next)
    | .i8 | .cy      => pure (scanInteger vt .int64 <| Libc.wcstol bstr, next)
    | .r4            => pure (scanFloat lib.float, next)
    | .r8            => pure (scanFloat lib.double, next)
    | .ui1 | .ui2    => rescanInteger lib host vt .uint32 .ui4 (Libc.wcstoul bstr) next
    | .ui4           =>
      pure (unlessNegative bstr <| scanInteger vt .uint32 <| Libc.wcstoul bstr, next)
    | .ui8           =>
      pure (unlessNegative bstr <| scanInteger vt .uint64 <| Libc.wcstoul bstr, next)
    | .date          =>
      match lib.wcstombs bstr with
      | none       => pure (.error eTypeMismatch, next)
      | some bytes =>
        match host.alloc next with
        | (none,   next) => pure (.error eOutOfMemory, next)
        | (some _, next) =>
          match lib.parseDate bytes with
          | none     => pure (.error eTypeMismatch, next)
          | some val => pure (.ok <| .scalar .date <| IntType.int64.word val, next)
    | _              => pure (.error eBadVarType, next)

def bstr2variant (isArray : Bool) (vt : VarType) (bstr : List Nat) (next : Nat) :
    Exec (Except HRESULT Variant × Nat) :=
  if wcs bstr = [] then pure (.error eTypeMismatch, next)
  else bstr2number lib host isArray vt (wcs bstr) next

-- The value that `VariantChangeType` stores when the types differ.
def changeValue (src : Variant) (isArray : Bool) (vt : VarType) (next : Nat) :
    Exec (Except HRESULT Variant × Nat) :=
  match src with
  | .scalar .empty _ =>
    match isArray, vt with
    | false, .bstr  => do
      let (bstrVal, next) ← sysAllocString host (some []) next
      return (.ok <| .bstr bstrVal, next)
    | false, .error => pure (.error eTypeMismatch, next)
    | _,     _      => pure (.ok <| .init isArray vt, next)
  | .scalar .null _ | .scalar .error _ => pure (.error eTypeMismatch, next)
  | .scalar s val =>
    match s.number val with
    | none   => pure (.error eBadVarType, next)
    | some n => subChangeType lib host s n (s ≠ .bool) isArray vt next
  | .bstr none     => throw .read
  | .bstr (some b) => bstr2variant lib host isArray vt b.chars next
  | _              => pure (.error eBadVarType, next)

-- Without a destination the source is changed in place.
def variantChangeType (dest : Option Variant) (src : Variant) (isArray : Bool) (vt : VarType)
    (next : Nat) : Exec Changed := do
  let same := src.vt = VarType.word isArray vt
  let kept ←
    match dest with
    | none      => pure src
    | some dest => do
      let _ ← variantClear dest
      pure (.init false .empty)
  if same then
    if dest.isSome then variantCopy host src next else return ⟨sOk, src, next⟩
  else
    let (r, next) ← changeValue lib host src isArray vt next
    match r with
    | .ok v     => return ⟨sOk, v, next⟩
    | .error hr => return ⟨hr, kept, next⟩

end
