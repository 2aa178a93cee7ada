import DensoRobot.Bcap.Packet
import DensoRobot.Lib.Ints

open HRESULT Bytes

namespace Bcap

mutual

-- The number of bytes that a variant's payload takes, computed in a `uint32_t`.
def calcSizeVariant : Variant → Nat
  | .nullArray _        => 0
  | .rawArray vt psa _  =>
    let cnt := Variant.count psa
    match vt with
    | .ui1                           => cnt
    | .i2 | .ui2 | .bool             => u32 (cnt * 2)
    | .i4 | .ui4 | .r4               => u32 (cnt * 4)
    | .i8 | .ui8 | .r8 | .cy | .date => u32 (cnt * 8)
    | _                              => 0
  | .bstrArray psa data    => calcSizeBstrs data (i32 (Variant.count psa)).toNat
  | .variantArray psa data => calcSizeVariants data (i32 (Variant.count psa)).toNat
  | .scalar vt _           =>
    match vt with
    | .ui1                           => 1
    | .i2 | .ui2 | .bool             => 2
    | .i4 | .ui4 | .r4 | .error      => 4
    | .i8 | .ui8 | .r8 | .cy | .date => 8
    | _                              => 0
  | .bstr bstrVal => 4 + 2 * sysStringLen bstrVal

def calcSizeBstrs : List (Option Bstr) → (cnt : Nat) → Nat
  | b :: bs, cnt + 1 => u32 (4 + 2 * sysStringLen b + calcSizeBstrs bs cnt)
  | _,       _       => 0

def calcSizeVariants : List Variant → (cnt : Nat) → Nat
  | v :: vs, cnt + 1 => u32 (6 + calcSizeVariant v + calcSizeVariants vs cnt)
  | _,       _       => 0

end

def calcSizeArgs : List Variant → Nat
  | []      => 0
  | v :: vs => u32 (10 + calcSizeVariant v + calcSizeArgs vs)

def calcSizePacket (packet : BcapPacket) : Exec Nat := do
  return u32 (bcapSizeMin + calcSizeArgs (← packet.argList))

-- The buffer `dst` together with the position `*offset` up to which it has been filled.
structure Out where
  dst    : List UInt8
  offset : Nat

def store (dst : List UInt8) (pos : Nat) (bs : List UInt8) : Exec (List UInt8) :=
  if pos + bs.length ≤ dst.length then pure (dst.splice pos bs) else throw .write

-- if (*offset + size > len_dst) return E_INVALIDARG;
-- memcpy_le(&dst[*offset], .., size);
-- *offset += size;
def put (lenDst : Nat) (bs : List UInt8) (o : Out) : Exec (HRESULT × Out) :=
  if lenDst < u32 (o.offset + bs.length) then
    pure (eInvalidArg, o)
  else do
    let dst ← store o.dst o.offset bs
    pure (sOk, ⟨dst, u32 (o.offset + bs.length)⟩)

-- if (FAILED(hr)) return hr;
def andThen (r : Exec (HRESULT × Out)) (k : Out → Exec (HRESULT × Out)) : Exec (HRESULT × Out) := do
  let (hr, o) ← r
  if Failed hr then pure (hr, o) else k o

-- The characters of a string that are sent, as many as its (16 bit) length says.
def bstrText : Option Bstr → List Nat
  | none   => []
  | some b => (wcs b.chars).take (sysStringLen (some b))

def putChars (lenDst : Nat) : List Nat → Out → Exec (HRESULT × Out)
  | [],      o => pure (sOk, o)
  | c :: cs, o => andThen (put lenDst (toLe 2 c) o) (putChars lenDst cs)

def putBstr (lenDst : Nat) (b : Option Bstr) (o : Out) : Exec (HRESULT × Out) :=
  andThen (put lenDst (toLe 4 (2 * sysStringLen b)) o) (putChars lenDst (bstrText b))

def putBstrs (lenDst : Nat) : (argc : Nat) → List (Option Bstr) → Out → Exec (HRESULT × Out)
  | 0,        _,       o => pure (sOk, o)
  | _ + 1,    [],      _ => throw .read
  | argc + 1, b :: bs, o => andThen (putBstr lenDst b o) (putBstrs lenDst argc bs)

-- The loop over the elements of an array of numbers, each of which `conv` converts.
def putElems (lenDst size : Nat) (conv : List UInt8 → List UInt8) :
    (argc : Nat) → List UInt8 → Out → Exec (HRESULT × Out)
  | 0,        _,    o => pure (sOk, o)
  | argc + 1, data, o =>
    if size ≤ data.length then
      andThen (put lenDst (conv (data.take size)) o)
        (putElems lenDst size conv argc (data.drop size))
    else
      throw .read

-- if (*src > 0)
--   dbl = (double) (*src) / _SEC_ONEDAY + _TIME_DIFFERENCE;
def vntdate2bytary (host : Host) (date : List UInt8) : List UInt8 :=
  toLe 8 <| if 0 < IntType.int64.wrap (ofLe date) then host.secondsToDays (ofLe date) else 0

-- The number of elements of a variant, or `none` for an array without `parray`.
def elements : Variant → Option Nat
  | .nullArray _                                                          => none
  | .rawArray _ psa _ | .bstrArray psa _ | .variantArray psa _ => some (Variant.count psa)
  | .scalar _ _ | .bstr _                                                 => some 1

mutual

def vnt2bytary (host : Host) (lenDst : Nat) : Variant → (argc : Nat) → Out → Exec (HRESULT × Out)
  | .nullArray _,          _,    o => pure (sOk, o)
  | .rawArray vt _ data,   argc, o =>
    match vt with
    | .ui1                   =>
      if argc ≤ data.length then put lenDst (data.take argc) o else throw .read
    | .i2 | .ui2 | .bool     => putElems lenDst 2 id argc data o
    | .i4 | .ui4 | .r4       => putElems lenDst 4 id argc data o
    | .i8 | .ui8 | .r8 | .cy => putElems lenDst 8 id argc data o
    | .date                  => putElems lenDst 8 (vntdate2bytary host) argc data o
    | _                      => pure (sOk, o)
  | .bstrArray _ data,     argc, o => putBstrs lenDst argc data o
  | .variantArray _ data,  argc, o => vntary2bytary host lenDst data argc false o
  | .scalar vt val,        _,    o =>
    match vt with
    | .ui1                      => put lenDst (toLe 1 val) o
    | .i2 | .ui2 | .bool        => put lenDst (toLe 2 val) o
    | .i4 | .ui4 | .r4 | .error => put lenDst (toLe 4 val) o
    | .i8 | .ui8 | .r8 | .cy    => put lenDst (toLe 8 val) o
    | .date                     => put lenDst (vntdate2bytary host (toLe 8 val)) o
    | _                         => pure (sOk, o)
  | .bstr bstrVal,         _,    o => putBstr lenDst bstrVal o

def vntary2bytary (host : Host) (lenDst : Nat) :
    List Variant → (argc : Nat) → (flag : Bool) → Out → Exec (HRESULT × Out)
  | _,       0,        _,    o => pure (sOk, o)
  | [],      _ + 1,    _,    _ => throw .read
  | v :: vs, argc + 1, flag, o =>
    let offsetTmp := o.offset
    let o := if flag then { o with offset := u32 (o.offset + bcapSizeDataLen) } else o
    andThen (put lenDst (toLe 2 v.vt) o) fun o =>
    match elements v with
    | none     => pure (eInvalidArg, o)
    | some cnt =>
      andThen (put lenDst (toLe 4 cnt) o) fun o =>
      andThen (vnt2bytary host lenDst v cnt o) fun o =>
      if flag then do
        -- The length of the argument is only known now, and goes to the place that was left for it.
        let lenVnt := wordOfInt (o.offset - offsetTmp - bcapSizeDataLen)
        let dst ← store o.dst offsetTmp (toLe 4 lenVnt)
        vntary2bytary host lenDst vs argc flag { o with dst }
      else
        vntary2bytary host lenDst vs argc flag o

end

-- `dst` is the buffer of `len_dst` bytes.
def packet2bytary (host : Host) (src : BcapPacket) (dst : List UInt8) :
    Exec (HRESULT × List UInt8) := do
  let lenDst := dst.length
  if lenDst < bcapSizeMin then
    return (eInvalidArg, dst)
  let header :=
    [bcapHeader] ++ toLe 4 lenDst ++ toLe 2 src.serial ++ toLe 2 src.reserv ++
      toLe 4 (wordOfInt src.id) ++ toLe 2 src.argc
  let dst := (List.replicate lenDst 0).splice 0 header
  let (hr, o) ← vntary2bytary host (lenDst - 1) (← src.argList) src.argc true ⟨dst, bcapPosDataLen⟩
  return (hr, o.dst.splice (lenDst - 1) [bcapTerminator])

end Bcap
