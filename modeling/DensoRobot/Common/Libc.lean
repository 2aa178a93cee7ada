import DensoRobot.Lib.Ints

-- The parts of the C library that conversions between numbers and strings rely on.

-- A floating point type, whose numbers are given by their bits.
structure FloatType where
  size   : Nat
  ofInt  : Int → Nat
  toInt  : IntType → Nat → Int
  lt     : Nat → Nat → Bool
  isZero : Nat → Bool
  -- `%.7G` and `%.15G`
  print  : Nat → List Nat
  -- `wcstof` and `wcstod`: the number, what follows it, and whether it is out of range.
  parse  : List Nat → Nat × List Nat × Bool

-- What is not implemented here: floating point numbers, dates and multibyte characters.
structure Libc where
  float  : FloatType
  double : FloatType
  widen  : Nat → Nat
  narrow : Nat → Nat
  -- `(double) -FLT_MAX` and `(double) FLT_MAX`
  fltMin : Nat
  fltMax : Nat
  -- The upper half of the `long` that `%ld` and `%lu` read for an argument of 32 bits.
  upper  : Nat → Nat
  -- `gmtime`, `strftime` and `mbstowcs`
  printDate : Int → List Nat
  -- `strptime` and `mktime`
  parseDate : List UInt8 → Option Int
  -- `none` if there is a character that has no multibyte form.
  wcstombs  : List Nat → Option (List UInt8)

namespace Libc

-- The characters of a decimal number.
def decimal (z : Int) : List Nat :=
  let digits := (Nat.toDigits 10 z.natAbs).map Char.toNat
  if z < 0 then 45 :: digits else digits

def isSpace (c : Nat) : Bool :=
  c = 32 || (9 ≤ c && c ≤ 13)

-- The value of a digit, which is 36 for other characters.
def digitVal (c : Nat) : Nat :=
  if 48 ≤ c ∧ c ≤ 57 then c - 48
  else if 97 ≤ c ∧ c ≤ 122 then c - 87
  else if 65 ≤ c ∧ c ≤ 90 then c - 55
  else 36

-- The sign of a number, and what follows it.
def takeSign : List Nat → Bool × List Nat
  | 45 :: s => (true, s)
  | 43 :: s => (false, s)
  | s       => (false, s)

-- The base that a number is written in, and its digits with what follows them.
def takeBase : List Nat → Nat × List Nat
  | 48 :: x :: d :: s =>
    if (x = 120 ∨ x = 88) ∧ digitVal d < 16 then (16, d :: s) else (8, 48 :: x :: d :: s)
  | 48 :: s           => (8, 48 :: s)
  | s                 => (10, s)

def ofDigits (base : Nat) (ds : List Nat) : Nat :=
  ds.foldl (fun v d => base * v + digitVal d) 0

-- A number as the `wcsto..` functions read it with base 0.
-- Without any digit the number is 0, and all characters follow it.
structure Parsed where
  negative  : Bool
  magnitude : Nat
  rest      : List Nat

def parse (s : List Nat) : Parsed :=
  let (negative, t) := takeSign (s.dropWhile isSpace)
  let (base, t) := takeBase t
  let ds := t.takeWhile (digitVal · < base)
  if ds = [] then ⟨false, 0, s⟩ else ⟨negative, ofDigits base ds, t.drop ds.length⟩

def Parsed.value (p : Parsed) : Int :=
  if p.negative then -p.magnitude else p.magnitude

-- The result of a `wcsto..` function: the number, the character `*wchRet` behind it, and whether
-- `errno` is `ERANGE`.
structure Scanned where
  val    : Int
  next   : Nat
  erange : Bool

-- `wcstol` and `wcstoll`, whose types have 64 bits.
def wcstol (s : List Nat) : Scanned :=
  let p := parse s
  let next := p.rest.headD 0
  if p.value < IntType.int64.low then ⟨IntType.int64.low, next, true⟩
  else if IntType.int64.high ≤ p.value then ⟨IntType.int64.high - 1, next, true⟩
  else ⟨p.value, next, false⟩

-- `wcstoul` and `wcstoull`, whose types have 64 bits. A negative number is taken modulo 2^64.
def wcstoul (s : List Nat) : Scanned :=
  let p := parse s
  let next := p.rest.headD 0
  if IntType.uint64.high ≤ p.magnitude then ⟨IntType.uint64.high - 1, next, true⟩
  else ⟨IntType.uint64.wrap p.value, next, false⟩

section

variable (lib : Libc) (chars : List Nat) (n : Nat)

-- The bytes of the longest part of a string that fits into `n` bytes, among those with as many
-- characters as given or less.
def fitting : Nat → List UInt8
  | 0     => []
  | k + 1 =>
    match lib.wcstombs (chars.take (k + 1)) with
    | some bytes => if bytes.length ≤ n then bytes else fitting k
    | none       => fitting k

-- What `wcstombs` writes to a buffer of `n` bytes. The zero is only written if there is space left.
def wcstombsInto : List UInt8 :=
  match lib.wcstombs chars with
  | some bytes => if bytes.length < n then bytes ++ [0] else fitting lib chars n chars.length
  | none       => fitting lib chars n chars.length

variable {lib chars n}

theorem length_fitting_le (k : Nat) : (fitting lib chars n k).length ≤ n := by
  induction k
  case zero => exact Nat.zero_le n
  case succ k ih =>
    simp only [fitting]
    split
    case h_1 bytes _ =>
      split
      case isTrue hle => exact hle
      case isFalse    => exact ih
    case h_2 => exact ih

theorem length_wcstombsInto_le : (wcstombsInto lib chars n).length ≤ n := by
  simp only [wcstombsInto]
  split
  case h_1 =>
    split
    case isTrue hlt => exact List.length_append ▸ hlt
    case isFalse    => exact length_fitting_le _
  case h_2 => exact length_fitting_le _

-- A string that takes all of the buffer.
theorem wcstombsInto_of_length {bytes : List UInt8} (h : lib.wcstombs chars = some bytes)
    (hn : bytes.length = n) (hc : chars = [] → bytes = []) : wcstombsInto lib chars n = bytes := by
  simp only [wcstombsInto, h, hn, Nat.lt_irrefl, if_false]
  cases chars
  case nil       => exact (hc rfl).symm
  case cons c cs =>
    rw [List.length_cons, fitting, ← List.length_cons, List.take_length, h]
    exact if_pos (Nat.le_of_eq hn)

end

end Libc
