import DensoRobot.Bcap.Decode

open Bytes

namespace Bcap

-- How far an item of a packet reaches: up to a given position, beyond the end of the packet or of
-- the memory of the host, or to where the memory of the packet or of the item itself is left.
inductive Extent
  | whole (c : Cursor)
  | cut
  | bad
  deriving DecidableEq

namespace Extent

def andThen : Extent → (Cursor → Extent) → Extent
  | whole c, k => k c
  | cut,     _ => cut
  | bad,     _ => bad

section

variable (host : Host) (src : List UInt8) (lenSrc : Nat)

-- The position behind a field must be a 32 bit number.
def field (size : Nat) (c : Cursor) : Extent :=
  if 4294967296 ≤ c.offset + size then
    bad
  else if c.offset + size ≤ lenSrc then
    whole { c with offset := c.offset + size }
  else
    cut

-- As many of `n` fields as are present must find room.
def fields (size n room : Nat) (c : Cursor) : Extent :=
  let present := min n ((lenSrc - c.offset) / size)
  if room < present then
    bad
  else if present = n then
    whole { c with offset := c.offset + n * size }
  else
    field lenSrc size { c with offset := c.offset + present * size }

def text (slot : Bool) (c : Cursor) : Extent :=
  field lenSrc 4 c |>.andThen fun c' =>
    let n := ofLe (src.window c.offset 4) / 2
    if !slot then
      bad
    else
      match host.alloc c'.next with
      | (none,   _)    => cut
      | (some _, next) => fields lenSrc 2 n (bstrCapacity (u16 n)) { c' with next }

def texts : (n room : Nat) → Cursor → Extent
  | 0,     _,    c => whole c
  | n + 1, room, c => text host src lenSrc (0 < room) c |>.andThen (texts n (room - 1))

def number (vt : VarType) (c : Cursor) : Extent :=
  match vt with
  | .ui1                            => field lenSrc 1 c
  | .i2 | .ui2 | .bool              => field lenSrc 2 c
  | .i4 | .ui4 | .r4 | .error       => field lenSrc 4 c
  | .i8 | .ui8 | .r8 | .cy | .date  => field lenSrc 8 c
  | .bstr                           => text host src lenSrc true c
  | _                               => whole c

-- `inner` is the extent of the elements of an array of variants.
-- If `strict`, an array of pointers that does not find room is bad even if it is cut in time.
def array (strict : Bool) (inner : (n room : Nat) → Cursor → Extent) (vt : VarType) (n : Nat)
    (psa : ArrayHeader) (c : Cursor) : Extent :=
  match vt with
  | .ui1                           =>
    if c.offset + n ≤ lenSrc then whole { c with offset := c.offset + n }
    else if u32 (c.offset + n) ≤ lenSrc then bad
    else cut
  | .i2 | .ui2 | .bool             => fields lenSrc 2 n psa.cap c
  | .i4 | .ui4 | .r4               => fields lenSrc 4 n psa.cap c
  | .i8 | .ui8 | .r8 | .cy | .date => fields lenSrc 8 n psa.cap c
  | .bstr                          =>
    if strict ∧ psa.cap < n then bad else texts host src lenSrc n psa.cap c
  | .variant                       => if strict ∧ psa.cap < n then bad else inner n psa.cap c
  | _                              => whole c

def variants (item : (isArray : Bool) → VarType → (n : Nat) → Cursor → Extent) (flag : Bool) :
    (n room : Nat) → Cursor → Extent
  | 0,     _,        c => whole c
  | _ + 1, 0,        _ => bad
  | n + 1, room + 1, c =>
    let c := if flag then { c with offset := u32 (c.offset + bcapSizeDataLen) } else c
    field lenSrc 2 c |>.andThen fun c₁ =>
    field lenSrc 4 c₁ |>.andThen fun c₂ =>
      let (isArray, vt) := VarType.ofWord (ofLe (src.window c.offset 2))
      item isArray vt (ofLe (src.window c₁.offset 4)) c₂ |>.andThen (variants item flag n room)

def variant (strict : Bool) :
    (depth : Nat) → (isArray : Bool) → VarType → (n : Nat) → Cursor → Extent
  | 0,         _,     _,  _, _ => cut
  | _ + 1,     false, vt, _, c => number host src lenSrc vt c
  | depth + 1, true,  vt, n, c =>
    match safeArrayCreateVector host vt 1 n c.next with
    | (none,     _)    => cut
    | (some psa, next) =>
      array host src lenSrc strict (variants src lenSrc (variant strict depth) false) vt n psa
        { c with next }

end

-- The extent of the first `n` arguments of a packet from a given one on.
def args (strict : Bool) (host : Host) (src : List UInt8) (n room : Nat) (c : Cursor) : Extent :=
  let lenSrc := src.length - 1
  variants src lenSrc (variant host src lenSrc strict src.length) true n room c

end Extent
end Bcap
