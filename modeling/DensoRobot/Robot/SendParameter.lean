import DensoRobot.Robot.SlaveMove

open HRESULT

namespace Robot

-- The part of an array of I/O bits that a user I/O is about, in bits and bytes.
structure UserRange where
  offset : Int32
  size   : Int32

structure UserIo extends UserRange where
  value : List UInt8

-- What the commands of a slave move are built from, apart from the pose.
structure SendValues where
  miniio     : Int32
  handio     : Int32
  recvUserio : UserRange
  sendUserio : UserIo

-- An `int` or a `size_t`.

def toInt (z : Int) : Int :=
  i32 (wordOfInt z)

def toSize (z : Int) : Nat :=
  (z % 18446744073709551616).toNat

namespace SendValues

def init : SendValues where
  miniio     := 0
  handio     := 0
  recvUserio := ⟨128, 1⟩
  sendUserio := ⟨⟨128, 1⟩, []⟩

def putMiniio (value : Int32) (s : SendValues) : SendValues :=
  { s with miniio := value }

def putHandio (value : Int32) (s : SendValues) : SendValues :=
  { s with handio := value }

def putSendUserio (value : UserIo) (s : SendValues) : SendValues :=
  if value.offset.toInt < 128 then s
  else if Int.tmod value.offset.toInt 8 ≠ 0 then s
  else if value.size.toInt ≤ 0 then s
  else if toSize value.size.toInt < value.value.length then s
  else { s with sendUserio := value }

def putRecvUserio (value : UserIo) (s : SendValues) : SendValues :=
  if value.offset.toInt < 128 then s
  else if Int.tmod value.offset.toInt 8 ≠ 0 then s
  else if value.size.toInt ≤ 0 then s
  else { s with recvUserio := value.toUserRange }

inductive Message
  | miniio (value : Int32)
  | handio (value : Int32)
  | sendUserio (value : UserIo)
  | recvUserio (value : UserIo)

def receive (s : SendValues) : Message → SendValues
  | .miniio value     => s.putMiniio value
  | .handio value     => s.putHandio value
  | .sendUserio value => s.putSendUserio value
  | .recvUserio value => s.putRecvUserio value

end SendValues

-- The number of values in a pose for the mode.
def sendJoints (mode : Int) : Option Nat :=
  match poseBits mode with
  | 1 => some 7
  | 2 => some 8
  | 3 => some 10
  | _ => none

def i4 (z : Int) : Variant :=
  .scalar .i4 (wordOfInt z)

-- Where there is no memory for an array, its data is written to a place that nothing was stored to.

def createDoubles (host : Host) (joints : Nat) (pose : List UInt64) (next : Nat) :
    Exec (Variant × Nat) :=
  match safeArrayCreateVector host .r8 0 joints next with
  | (none, _)        => throw .uninit
  | (some psa, next) =>
    if joints ≤ psa.cap ∧ pose.length ≤ psa.cap then
      let values := pose ++ List.replicate (joints - pose.length) 0
      return (.rawArray .r8 psa (values.flatMap fun x => Bytes.toLe 8 x.toNat), next)
    else
      throw .write

def createBytes (host : Host) (size : Int) (value : List UInt8) (next : Nat) :
    Exec (Variant × Nat) :=
  match safeArrayCreateVector host .ui1 0 (wordOfInt size) next with
  | (none, _)        => throw .uninit
  | (some psa, next) =>
    if toSize size ≤ psa.cap ∧ value.length ≤ psa.cap then
      return (.rawArray .ui1 psa (value ++ List.replicate (toSize size - value.length) 0), next)
    else
      throw .write

inductive SendField
  | pose
  | miniio
  | sendUserio
  | recvUserio
  | handio

namespace SendField

def width : SendField → Nat
  | pose       => 1
  | miniio     => 1
  | sendUserio => 3
  | recvUserio => 2
  | handio     => 1

-- The elements that are set for a field.
def create (host : Host) (joints : Nat) (pose : List UInt64) (s : SendValues) (next : Nat) :
    SendField → Exec (List Variant × Nat)
  | .pose => do
    let (vnt, next) ← createDoubles host joints pose next
    return ([vnt], next)
  | miniio => return ([i4 s.miniio.toInt], next)
  | sendUserio => do
    let io := s.sendUserio
    let (vnt, next) ← createBytes host io.size.toInt io.value next
    return ([i4 io.offset.toInt, i4 (toInt (io.size.toInt * 8)), vnt], next)
  | recvUserio =>
    let io := s.recvUserio
    return ([i4 io.offset.toInt, i4 (toInt (io.size.toInt * 8))], next)
  | handio => return ([i4 s.handio.toInt], next)

end SendField

-- The fields of a command, in the order in which they are set.
def sendFields (sendfmt recvfmt : Int) : List SendField :=
  [.pose] ++
  (if hasBit sendfmt fmtMiniio then [.miniio] else []) ++
  (if hasBit sendfmt fmtUserio then [.sendUserio] else []) ++
  (if hasBit recvfmt fmtUserio then [.recvUserio] else []) ++
  (if hasBit sendfmt fmtHandio then [.handio] else [])

def createFields (host : Host) (joints : Nat) (pose : List UInt64) (s : SendValues) :
    List SendField → (next : Nat) → Exec (List Variant × Nat)
  | [],              next => pure ([], next)
  | field :: fields, next => do
    let (vnts, next) ← field.create host joints pose s next
    let (rest, next) ← createFields host joints pose s fields next
    return (vnts ++ rest, next)

-- The result, `send`, and the number of requests for memory so far.
def createSendParameter (host : Host) (mode sendfmt recvfmt : Int) (pose : List UInt64)
    (s : SendValues) (next : Nat) : Exec (HRESULT × Variant × Nat) :=
  match sendJoints mode with
  | none => return (eFail, .scalar .empty 0, next)
  | some joints =>
    if hasBit sendfmt fmtUserio ∧ toSize s.sendUserio.size.toInt < s.sendUserio.value.length then
      return (eFail, .scalar .empty 0, next)
    else
      let fields := sendFields sendfmt recvfmt
      let num := (fields.map SendField.width).sum
      if num = 1 then do
        let (send, next) ← createDoubles host (joints + 1) pose next
        return (sOk, send, next)
      else
        match safeArrayCreateVector host .variant 0 num next with
        | (none, _)        => throw .uninit
        | (some psa, next) => do
          let (vnts, next) ← createFields host (joints + 1) pose s fields next
          if vnts.length ≤ psa.cap then
            return (sOk, .variantArray psa vnts, next)
          else
            throw .write

end Robot
