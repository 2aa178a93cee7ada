import DensoRobot.Common.Hresult
import DensoRobot.Common.Libc

open HRESULT

inductive ConnType
  | tcp
  | udp
  | com
  deriving DecidableEq, Repr

-- The parameters of a connection, with ports and addresses in the order of the network.
structure ConnParamEth where
  dstAddr : Nat
  dstPort : Nat
  srcAddr : Nat
  srcPort : Nat
  deriving DecidableEq, Repr

namespace Device

-- `htons` on a machine whose words start with their lowest byte.
def htons (n : Nat) : Nat :=
  n % 256 * 256 + n / 256 % 256

def isDigit (c : Nat) : Bool :=
  48 ≤ c && c ≤ 57

-- `strspn` is the length of what it is called for iff all characters are digits.
def isNumeric (src : List Nat) : Bool :=
  match src with
  | []        => false
  | 45 :: src => src.all isDigit
  | src       => src.all isDigit

-- `atoi` of the C library is `strtol` with base 10, whose result is cast to an `int`.
def atoi (s : List Nat) : Int :=
  let (negative, t) := Libc.takeSign (s.dropWhile Libc.isSpace)
  let magnitude : Int := Libc.ofDigits 10 (t.takeWhile isDigit)
  let value := if negative then -magnitude else magnitude
  IntType.int32.wrap <| max IntType.int64.low <| min (IntType.int64.high - 1) value

def toLower (c : Nat) : Nat :=
  if 65 ≤ c ∧ c ≤ 90 then c + 32 else c

def tcpText : List Nat := [116, 99, 112]
def udpText : List Nat := [117, 100, 112]
def comText : List Nat := [99, 111, 109]

def parseConnType (opt : List Nat) : Option ConnType :=
  if 3 ≤ opt.length then
    let head := (opt.take 3).map toLower
    if head = tcpText then some .tcp
    else if head = udpText then some .udp
    else if head = comText then some .com
    else none
  else
    none

-- The loop that splits the string where there is a `:`, into `left` fields at most.
def splitParams : (left : Nat) → List Nat → Option (List (List Nat))
  | 0,        _   => none
  | left + 1, top =>
    match top.dropWhile (· ≠ 58) with
    | []       => some [top]
    | _ :: rest => (splitParams left rest).map (top.takeWhile (· ≠ 58) :: ·)

def inaddrNone : Nat := 0xffffffff

-- "255.255.255.255"
def broadcastText : List Nat :=
  [50, 53, 53, 46, 50, 53, 53, 46, 50, 53, 53, 46, 50, 53, 53]

-- Each of the following parses a parameter if it is given. The parameters that were set before an
-- error stay set.
def setPort (set : Nat → ConnParamEth) (param : ConnParamEth) :
    Option (List Nat) → Except (HRESULT × ConnParamEth) ConnParamEth
  | none   => .ok param
  | some s =>
    if isNumeric s = false then
      .error (eInvalidArg, param)
    else
      let tmp := atoi s
      if tmp < 0 ∨ tmp ≠ IntType.uint16.wrap tmp then
        .error (eOverflow, param)
      else
        .ok (set (htons tmp.toNat))

def setAddr (inetAddr : List Nat → Nat) (set : Nat → ConnParamEth) (param : ConnParamEth) :
    Option (List Nat) → Except (HRESULT × ConnParamEth) ConnParamEth
  | none   => .ok param
  | some s =>
    let uitmp := inetAddr s
    if uitmp = inaddrNone ∧ s ≠ broadcastText then
      .error (eInvalidArg, param)
    else
      .ok (set uitmp)

def setParams (inetAddr : List Nat → Nat) (params : List (List Nat)) (param : ConnParamEth) :
    Except (HRESULT × ConnParamEth) ConnParamEth := do
  let param ← setPort (fun v => { param with srcPort := v }) param params[4]?
  let param ← setAddr inetAddr (fun v => { param with srcAddr := v }) param params[3]?
  let param ← setPort (fun v => { param with dstPort := v }) param params[2]?
  setAddr inetAddr (fun v => { param with dstAddr := v }) param params[1]?

def parseFields (inetAddr : List Nat → Nat) (opt : List Nat) (param : ConnParamEth) :
    HRESULT × ConnParamEth :=
  match splitParams 5 opt with
  | none        => (eInvalidArg, param)
  | some params =>
    match setParams inetAddr params param with
    | .error (hr, param) => (hr, param)
    | .ok param          => (sOk, param)

-- `served` tells whether there is memory for the copy of the string.
def parseConnParamEther (inetAddr : List Nat → Nat) (served : Bool) (opt : List Nat)
    (param : ConnParamEth) : HRESULT × ConnParamEth :=
  let type := parseConnType opt
  if type = some .tcp ∨ type = some .udp then
    if served then parseFields inetAddr opt param else (eOutOfMemory, param)
  else
    (eInvalidArg, param)

end Device
