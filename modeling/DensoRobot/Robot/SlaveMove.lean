import DensoRobot.Lib.Bytes
import DensoRobot.Common.Variant

open HRESULT

namespace Robot

-- The bit of a format, or the pose that it or a mode asks for.

def hasBit (format : Int) (bit : Nat) : Bool :=
  format / bit % 2 = 1

def poseBits (format : Int) : Int :=
  format % 16

def fmtTime    : Nat := 0x0010
def fmtHandio  : Nat := 0x0020
def fmtCurrent : Nat := 0x0040
def fmtMiniio  : Nat := 0x0100
def fmtUserio  : Nat := 0x0200

-- The type words of the variants that a slave move exchanges.

def vtI4       : Nat := VarType.word false .i4
def vtR8s      : Nat := VarType.word true .r8
def vtUi1s     : Nat := VarType.word true .ui1
def vtVariants : Nat := VarType.word true .variant

-- The vectors that the values of a pose belong to.
inductive PoseVector
  | position
  | joint
  | trans
  deriving DecidableEq

namespace PoseVector

-- `NUM_POSITION`, `NUM_JOINT` and `NUM_TRANS`
def num : PoseVector → Nat
  | position => 7
  | joint    => 8
  | trans    => 10

end PoseVector

-- Floating point numbers are given by their bits.
structure Pose where
  position : List Nat
  joint    : List Nat
  trans    : List Nat
  deriving DecidableEq

def Pose.put (p : Pose) (xs : List Nat) : PoseVector → Pose
  | .position => { p with position := xs }
  | .joint    => { p with joint := xs }
  | .trans    => { p with trans := xs }

-- What `ParseRecvParameter` writes to.
structure Received where
  pose       : Pose
  miniio     : Int
  handio     : Int
  timestamp  : Int
  recvUserio : List UInt8
  current    : List Nat
  deriving DecidableEq

-- Before the first answer.
def Received.init : Received where
  pose       := ⟨[], [], []⟩
  miniio     := 0
  handio     := 0
  timestamp  := 0
  recvUserio := []
  current    := []

-- Reading a `VARIANT`.

def parray : Variant → Exec ArrayHeader
  | .rawArray _ psa _ | .bstrArray psa _ | .variantArray psa _ => pure psa
  | _ => throw .read

def lVal : Variant → Int
  | .scalar _ val => i32 val
  | _             => 0

def arrayBytes : Variant → List UInt8
  | .rawArray _ _ data => data
  | _                  => []

-- The data that was written to an array is followed by zeros, as the highest bytes of a number or
-- as an empty variant.

def doubles (v : Variant) (n : Nat) : List Nat :=
  (List.range n).map fun i => Bytes.ofLe ((arrayBytes v).window (8 * i) 8)

def bytes (v : Variant) (n : Nat) : List UInt8 :=
  (List.range n).map fun i => (arrayBytes v).getD i 0

def element (v : Variant) (i : Nat) : Variant :=
  match v with
  | .variantArray _ data => data.getD i (.scalar .empty 0)
  | _                    => .scalar .empty 0

-- The vectors that the values of a received pose are split into.
def recvPose (recvfmt : Int) : Option (List PoseVector) :=
  match poseBits recvfmt with
  | 1 => some [.position]
  | 2 => some [.joint]
  | 3 => some [.trans]
  | 4 => some [.position, .joint]
  | 5 => some [.trans, .joint]
  | _ => none

def numValues (vectors : List PoseVector) : Nat :=
  (vectors.map PoseVector.num).sum

def putPose : List PoseVector → List Nat → Pose → Pose
  | [],           _,  p => p
  | v :: vectors, xs, p => putPose vectors (xs.drop v.num) (p.put (xs.take v.num) v)

inductive RecvField
  | timestamp
  | pose (vectors : List PoseVector)
  | miniio
  | userio
  | handio
  | current

namespace RecvField

-- Whether the type of an element, and its length where there is one, is that of the field.
def accepts : RecvField → Variant → Exec Bool
  | timestamp, v | miniio, v | handio, v => pure (v.vt = vtI4)
  | pose vectors, v =>
    if v.vt = vtR8s then do
      return numValues vectors = (← parray v).cElements
    else
      pure false
  | userio, v =>
    if v.vt = vtUi1s then do
      let _ ← parray v
      return true
    else
      pure false
  | current, v =>
    if v.vt = vtR8s then do
      return 8 = (← parray v).cElements
    else
      pure false

def arrayLength (v : Variant) : Nat :=
  match parray v with
  | .ok psa  => psa.cElements
  | .error _ => 0

def store (v : Variant) (r : Received) : RecvField → Received
  | timestamp    => { r with timestamp := lVal v }
  | pose vectors => { r with pose := putPose vectors (doubles v (numValues vectors)) r.pose }
  | miniio       => { r with miniio := lVal v }
  | userio       => { r with recvUserio := bytes v (arrayLength v) }
  | handio       => { r with handio := lVal v }
  | current      => { r with current := doubles v 8 }

end RecvField

-- The fields of an answer, in the order in which they are parsed.
def recvFields (recvfmt : Int) (vectors : List PoseVector) : List RecvField :=
  (if hasBit recvfmt fmtTime then [.timestamp] else []) ++
  [.pose vectors] ++
  (if hasBit recvfmt fmtMiniio then [.miniio] else []) ++
  (if hasBit recvfmt fmtUserio then [.userio] else []) ++
  (if hasBit recvfmt fmtHandio then [.handio] else []) ++
  (if hasBit recvfmt fmtCurrent then [.current] else [])

-- Each field is checked and stored before the next one is looked at.
def parseFields (recv : Variant) : List RecvField → (offset : Nat) → Received →
    Exec (HRESULT × Received)
  | [],              _,      r => pure (sOk, r)
  | field :: fields, offset, r => do
    if ← field.accepts (element recv offset) then
      parseFields recv fields (offset + 1) (field.store (element recv offset) r)
    else
      return (eFail, r)

def parseRecvParameter (recvfmt : Int) (recv : Variant) (r : Received) :
    Exec (HRESULT × Received) :=
  match recvPose recvfmt with
  | none => pure (eFail, r)
  | some vectors => do
    let fields := recvFields recvfmt vectors
    if recv.vt = vtR8s then
      if numValues vectors ≠ (← parray recv).cElements then
        return (eFail, r)
      else
        return (sOk, RecvField.store recv r (.pose vectors))
    else if recv.vt = vtVariants then
      if fields.length ≠ (← parray recv).cElements then
        return (eFail, r)
      else
        parseFields recv fields 0 r
    else
      return (eFail, r)

end Robot
