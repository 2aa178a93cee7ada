import DensoRobot.Bcap.Packet

open HRESULT Bytes

namespace Bcap

-- The position `*offset` up to which the source has been read, and the number of the next block of
-- memory that is allocated.
structure Cursor where
  offset : Nat
  next   : Nat
  deriving DecidableEq, Repr

-- What a function that converts from a byte array leaves behind, which is of interest even if the
-- function fails.
structure Decoded (α : Type) where
  hr  : HRESULT
  val : α
  cur : Cursor
  deriving DecidableEq, Repr

section

-- The first `lenSrc` bytes of `src` may be read.
variable (host : Host) (src : List UInt8) (lenSrc : Nat)

-- if (*offset + size > len_src) return E_INVALIDPACKET;
-- memcpy_le(.., &src[*offset], size);
-- *offset += size;
def fetch (size : Nat) (partly : α) (c : Cursor) (k : List UInt8 → Cursor → Exec (Decoded α)) :
    Exec (Decoded α) :=
  if lenSrc < u32 (c.offset + size) then
    pure ⟨eInvalidPacket, partly, c⟩
  else if c.offset + size ≤ src.length then
    k (src.window c.offset size) { c with offset := u32 (c.offset + size) }
  else
    throw .read

-- The loops over numbers and characters of a fixed size, for which there are `room` places left.
def getMany (size : Nat) (conv : List UInt8 → β) :
    (argc room : Nat) → Cursor → Exec (Decoded (List β))
  | 0,        _,    c => pure ⟨sOk, [], c⟩
  | argc + 1, room, c =>
    fetch src lenSrc size [] c fun bs c =>
      match room with
      | 0        => throw .write
      | room + 1 => do
        let d ← getMany size conv argc room c
        return { d with val := conv bs :: d.val }

-- `slot` tells whether there is a place for the pointer to the string.
def getBstr (slot : Bool) (c : Cursor) : Exec (Decoded (Option Bstr)) :=
  fetch src lenSrc 4 none c fun bs c => do
    let lenBstr := ofLe bs / 2
    if !slot then
      throw .write
    let (bstr, next) ← sysAllocStringLen host [] lenBstr c.next
    let c := { c with next }
    match bstr with
    | none      => return ⟨eOutOfMemory, none, c⟩
    | some bstr =>
      let d ← getMany src lenSrc 2 ofLe lenBstr (bstrCapacity (u16 lenBstr)) c
      return { d with val := some { bstr with chars := d.val } }

def getBstrs : (argc room : Nat) → Cursor → Exec (Decoded (List (Option Bstr)))
  | 0,        _,    c => pure ⟨sOk, [], c⟩
  | argc + 1, room, c => do
    let d ← getBstr host src lenSrc (0 < room) c
    if Failed d.hr then
      return { d with val := [d.val] }
    let ds ← getBstrs argc (room - 1) d.cur
    return { ds with val := d.val :: ds.val }

-- The destination has been filled with zeros, and stays so unless 0 < dbl.
def bytary2vntdate (date : List UInt8) : List UInt8 :=
  toLe 8 <| (host.daysToSeconds (ofLe date)).getD 0

-- `dec` is the conversion of a single variant, whose type has been set already.
def bytary2vntary (dec : (isArray : Bool) → VarType → (argc : Nat) → Cursor →
    Exec (Decoded Variant))
    (flag : Bool) : (argc room : Nat) → Cursor → Exec (Decoded (List Variant))
  | 0,        _,        c => pure ⟨sOk, [], c⟩
  | _ + 1,    0,        _ => throw .write
  | argc + 1, room + 1, c =>
    let c := if flag then { c with offset := u32 (c.offset + bcapSizeDataLen) } else c
    fetch src lenSrc 2 [.init false .empty] c fun vt c =>
      let (isArray, vt) := VarType.ofWord (ofLe vt)
      fetch src lenSrc 4 [.init isArray vt] c fun cnt c => do
        let d ← dec isArray vt (ofLe cnt) c
        if Failed d.hr then
          return { d with val := [d.val] }
        let ds ← bytary2vntary dec flag argc room d.cur
        return { ds with val := d.val :: ds.val }

-- The part of `bcap_bytary2vnt` for arrays that starts when the array has been created.
-- `dec` is the conversion of the elements of an array of variants.
def bytary2array (dec : (argc room : Nat) → Cursor → Exec (Decoded (List Variant))) (vt : VarType)
    (argc : Nat) (psa : ArrayHeader) (c : Cursor) : Exec (Decoded Variant) :=
  let raw (size : Nat) (conv : List UInt8 → List UInt8) : Exec (Decoded Variant) := do
    let d ← getMany src lenSrc size conv argc psa.cap c
    return { d with val := .rawArray vt psa d.val.flatten }
  match vt with
  | .ui1                   =>
    if lenSrc < u32 (c.offset + argc) then
      pure ⟨eInvalidArg, .rawArray vt psa [], c⟩
    else if psa.cap < argc then
      throw .write
    else if c.offset + argc ≤ src.length then
      pure ⟨sOk, .rawArray vt psa (src.window c.offset argc),
        { c with offset := u32 (c.offset + argc) }⟩
    else
      throw .read
  | .i2 | .ui2 | .bool     => raw 2 id
  | .i4 | .ui4 | .r4       => raw 4 id
  | .i8 | .ui8 | .r8 | .cy => raw 8 id
  | .date                  => raw 8 (bytary2vntdate host)
  | .bstr                  => do
    let d ← getBstrs host src lenSrc argc psa.cap c
    return { d with val := .bstrArray psa d.val }
  | .variant               => do
    let d ← dec argc psa.cap c
    return { d with val := .variantArray psa d.val }
  | _                      => pure ⟨sOk, .rawArray vt psa [], c⟩

def bytary2scalar (vt : VarType) (c : Cursor) : Exec (Decoded Variant) :=
  let fixed (size : Nat) (conv : List UInt8 → List UInt8) : Exec (Decoded Variant) :=
    fetch src lenSrc size (.scalar vt 0) c fun bs c =>
      pure ⟨sOk, .scalar vt (ofLe (conv bs)), c⟩
  match vt with
  | .ui1                      => fixed 1 id
  | .i2 | .ui2 | .bool        => fixed 2 id
  | .i4 | .ui4 | .r4 | .error => fixed 4 id
  | .i8 | .ui8 | .r8 | .cy    => fixed 8 id
  | .date                     => fixed 8 (bytary2vntdate host)
  | .bstr                     => do
    let d ← getBstr host src lenSrc true c
    return { d with val := .bstr d.val }
  | _                         => pure ⟨sOk, .scalar vt 0, c⟩

def bytary2vnt : (depth : Nat) → (isArray : Bool) → VarType → (argc : Nat) → Cursor →
    Exec (Decoded Variant)
  | 0,         _,     _,  _,    _ => throw .fuel
  | _ + 1,     false, vt, _,    c => bytary2scalar host src lenSrc vt c
  | depth + 1, true,  vt, argc, c =>
    match safeArrayCreateVector host vt 1 argc c.next with
    | (none,     next) => pure ⟨eOutOfMemory, .nullArray vt, { c with next }⟩
    | (some psa, next) =>
      bytary2array host src lenSrc (bytary2vntary src lenSrc (bytary2vnt depth) false) vt argc psa
        { c with next }

end

-- The arguments of a packet are as deep as the packet is long at most.
def bytary2args (host : Host) (src : List UInt8) (argc room : Nat) (next : Nat) :
    Exec (Decoded (List Variant)) :=
  let lenSrc := src.length - 1
  bytary2vntary src lenSrc (bytary2vnt host src lenSrc src.length) true argc room
    ⟨bcapPosDataLen, next⟩

-- Writes to the first slots.
def Args.fill (args : Args) (vs : List Variant) : Args where
  addr  := args.addr
  slots := vs.map some ++ args.slots.drop vs.length

def mallocArgs (host : Host) (argc next : Nat) : Option Args × Nat :=
  let (addr, next) := host.alloc next
  (addr.map fun addr => ⟨addr, List.replicate argc none⟩, next)

-- The outcome of a function that fills in a packet.
structure Received where
  hr     : HRESULT
  packet : BcapPacket
  next   : Nat

-- Whether a receiver with the given `argc` and `args` accepts `tmpArgc` arguments.
def checkArgc (dst : BcapPacket) (tmpArgc : Nat) : HRESULT :=
  if dst.argc = argcAuto then
    if dst.args.isSome then eInvalidArg else sOk
  else if 0 < dst.argc ∧ dst.args.isNone then
    eInvalidArg
  else if dst.argc < tmpArgc then
    eInvalidPacket
  else
    sOk

-- Reads the arguments, as many as `dst.argc` says, after allocating them if there are none yet.
def fillArgs (host : Host) (src : List UInt8) (dst : BcapPacket) (next : Nat) : Exec Received := do
  if dst.argc = 0 then
    return ⟨sOk, dst, next⟩
  let (args, next) :=
    match dst.args with
    | some args => (some args, next)
    | none      => mallocArgs host dst.argc next
  match args with
  | none      => return ⟨eOutOfMemory, dst, next⟩
  | some args =>
    let d ← bytary2args host src dst.argc args.slots.length next
    return ⟨d.hr, { dst with args := some (args.fill d.val) }, d.cur.next⟩

-- Whether the byte array starts with a header that announces its length, and ends as it should.
def wellFramed (src : List UInt8) : Bool :=
  bcapSizeMin ≤ src.length && ofLe (src.window bcapPosLen 4) == src.length &&
    src[0]? == some bcapHeader && src[src.length - 1]? == some bcapTerminator

-- `src` are the `len_src` bytes of the byte array.
def bytary2packet (host : Host) (src : List UInt8) (dst : BcapPacket) (next : Nat) :
    Exec Received := do
  if !wellFramed src then
    return ⟨eInvalidPacket, dst, next⟩
  let tmpArgc := ofLe (src.window bcapPosArgc 2)
  let dst := { dst with
    serial := ofLe (src.window bcapPosSerial 2)
    reserv := ofLe (src.window bcapPosReserve 2)
    id     := i32 (ofLe (src.window bcapPosId 4))
  }
  let hr := checkArgc dst tmpArgc
  if Failed hr then
    return ⟨hr, dst, next⟩
  fillArgs host src { dst with argc := tmpArgc } next

end Bcap
