import DensoRobot.Rac.RacString

open HRESULT Bytes

namespace Rac

-- The loop of `SplitRacStr`, with the number of open brackets, which is an `int`. The result is
-- what lies between the zeros that it writes.
def splitFrom (iBracket : Int) : (chPos : List UInt8) → Option (List (List UInt8))
  | []          => if iBracket ≠ 0 then none else some [[]]
  | c :: chPos =>
    if c = 40 then
      (splitFrom (IntType.int32.wrap (iBracket + 1)) chPos).map (List.modifyHead (c :: ·))
    else if c = 41 then
      let iBracket := IntType.int32.wrap (iBracket - 1)
      if iBracket < 0 then none
      else (splitFrom iBracket chPos).map (List.modifyHead (c :: ·))
    else if c = 44 ∧ iBracket = 0 then
      (splitFrom iBracket chPos).map ([] :: ·)
    else
      (splitFrom iBracket chPos).map (List.modifyHead (c :: ·))

-- What lies in front of the first occurrence of a character and behind it.
def strchr (s : List UInt8) (c : UInt8) : Option (List UInt8 × List UInt8) :=
  if c ∈ s then some (s.takeWhile (· ≠ c), (s.dropWhile (· ≠ c)).tail) else none

-- The same for the last occurrence.
def strrchr (s : List UInt8) (c : UInt8) : Option (List UInt8 × List UInt8) :=
  (strchr s.reverse c).map fun (after, before) => (before.reverse, after.reverse)

-- Whether `strspn` of a string is its length.
def consistsOf (s accept : List UInt8) : Bool :=
  s.all (· ∈ accept)

-- `" 0123456789"`
def digitsAndBlanks : List UInt8 :=
  32 :: (List.range 10).map fun d => UInt8.ofNat (48 + d)

-- Numbers beyond the range of a `long` are taken for the largest one.
def atoi (s : List UInt8) : Int :=
  let digits := (s.dropWhile (· = 32)).takeWhile (· ∈ digitsAndBlanks.tail)
  i32 (min (Libc.ofDigits 10 (digits.map UInt8.toNat)) (2 ^ 63 - 1))

-- The type and the text in an element of an array of variants, `(vt,text)`.
def racElement (chPos : List UInt8) : Option (List UInt8 × List UInt8) := do
  let (blanks, chPos) ← strchr chPos 40
  if !consistsOf blanks [32] then none else
  let (chPos, blanks) ← strrchr chPos 41
  if !consistsOf blanks [32] then none else
  let (vt, text) ← strchr chPos 44
  if !consistsOf vt digitsAndBlanks then none else some (vt, text)

section

variable (lib : Libc) (host : Host) (mbstowcs : List UInt8 → Option (List Nat))

-- The number of strings is an `int`.
def splitRacStr (chSrc : List UInt8) (next : Nat) : Option (List (List UInt8)) × Nat :=
  match host.alloc next with
  | (none, next)   => (none, next)
  | (some _, next) => ((splitFrom 0 chSrc).filter fun split => 0 ≤ i32 split.length, next)

-- The characters that were written, which a zero ends if there is space left.
def convertMultiByte2WideChar (chSrc : List UInt8) (next : Nat) : Option (List Nat) × Nat :=
  match mbstowcs chSrc with
  | none       => (none, next)
  | some chars =>
    let iLen := i32 (chars.length + 1)
    if 0 < iLen then
      match host.alloc next with
      | (none, next)   => (none, next)
      | (some _, next) => (some ((chars ++ [0]).take iLen.toNat), next)
    else
      (none, next)

-- vntTmp.vt = VT_BSTR;
-- vntTmp.bstrVal = SysAllocString(wchTmp);
def convertText (chPos : List UInt8) (next : Nat) : Exec (Except HRESULT (Option Bstr) × Nat) :=
  match convertMultiByte2WideChar host mbstowcs chPos next with
  | (none, next)        => pure (.error eOutOfMemory, next)
  | (some wchTmp, next) =>
    if 0 ∈ wchTmp then do
      let (bstrVal, next) ← sysAllocString host (some wchTmp) next
      return (.ok bstrVal, next)
    else
      throw .read

-- What the loops over the elements of an array leave behind.
structure Parsed (α : Type) where
  hr   : HRESULT
  data : List α
  next : Nat

-- Stores an element at the next place of the array. Without an array there is no such place.
def storeElement (psa : Option ArrayHeader) (done : List α) (x : α) : Exec (List α) :=
  match psa with
  | none     => throw .write
  | some psa => if done.length < psa.cap then pure (done ++ [x]) else throw .write

-- The bits of a number.
def scalarVal : Variant → Nat
  | .scalar _ val => val
  | _             => 0

def convertBstrs (psa : Option ArrayHeader) : (split : List (List UInt8)) →
    (done : List (Option Bstr)) → (next : Nat) → Exec (Parsed (Option Bstr))
  | [],             done, next => pure ⟨sOk, done, next⟩
  | chPos :: split, done, next => do
    match ← convertText host mbstowcs chPos next with
    | (.error hr, next)   => return ⟨hr, done, next⟩
    | (.ok bstrVal, next) => convertBstrs psa split (← storeElement psa done bstrVal) next

def convertNumbers (vt : VarType) (psa : Option ArrayHeader) : (split : List (List UInt8)) →
    (done : List Nat) → (next : Nat) → Exec (Parsed Nat)
  | [],             done, next => pure ⟨sOk, done, next⟩
  | chPos :: split, done, next => do
    match ← convertText host mbstowcs chPos next with
    | (.error hr, next)   => return ⟨hr, done, next⟩
    | (.ok bstrVal, next) =>
      let r ← variantChangeType lib host none (.bstr bstrVal) false vt next
      if Failed r.hr then
        return ⟨r.hr, done, r.next⟩
      else
        convertNumbers vt psa split (← storeElement psa done (scalarVal r.dest)) r.next

-- The first error ends the loop. An element is there as soon as its conversion has started.
def convertVariants (convert : (vt : Nat) → (chSrc : List UInt8) → (next : Nat) → Exec Changed)
    (psa : Option ArrayHeader) :
    (split : List (List UInt8)) → (done : List Variant) → (next : Nat) →
    Exec (Parsed Variant)
  | [],             done, next => pure ⟨sOk, done, next⟩
  | chPos :: split, done, next =>
    match racElement chPos with
    | none            => pure ⟨eInvalidArg, done, next⟩
    | some (vt, text) => do
      let r ← convert (u16 (wordOfInt (atoi vt))) text next
      let done ← storeElement psa done r.dest
      if Failed r.hr then return ⟨r.hr, done, r.next⟩
      else convertVariants convert psa split done r.next

def convertRac : (fuel : Nat) → (vt : Nat) → (chSrc : List UInt8) → (pvargDest : Variant) →
    (next : Nat) → Exec Changed
  | 0,        _,  _,     _,         _    => throw .fuel
  | fuel + 1, vt, chSrc, pvargDest, next => do
    let (isArray, base) := VarType.ofWord vt
    let isBstr := !isArray && base == .bstr
    let (chSplit, next) :=
      if isBstr then
        match host.alloc next with
        | (none, next)   => (Except.error eOutOfMemory, next)
        | (some _, next) => (.ok [chSrc], next)
      else
        match splitRacStr host chSrc next with
        | (none, next)       => (.error eInvalidArg, next)
        | (some split, next) => (.ok split, next)
    match chSplit with
    | .error hr => return ⟨hr, pvargDest, next⟩
    | .ok split =>
      let _ ← variantClear pvargDest
      if isArray then
        let (psa, next) := safeArrayCreateVector host base 0 split.length next
        let array (dest : ArrayHeader → Variant) : Variant := psa.elim (.nullArray base) dest
        if base = .variant then
          let convert vt text next := convertRac fuel vt text (.init false .empty) next
          let r ← convertVariants convert psa split [] next
          return ⟨r.hr, array (.variantArray · r.data), r.next⟩
        else if base = .bstr then
          let r ← convertBstrs host mbstowcs psa split [] next
          return ⟨r.hr, array (.bstrArray · r.data), r.next⟩
        else
          let r ← convertNumbers lib host mbstowcs base psa split [] next
          return ⟨r.hr, array fun psa => .rawArray base psa (r.data.flatMap (toLe psa.cbElements)),
            r.next⟩
      else
        match split with
        | [chSplit] => do
          match ← convertText host mbstowcs chSplit next with
          | (.error hr, next)   => return ⟨hr, .init false .empty, next⟩
          | (.ok bstrVal, next) =>
            variantChangeType lib host (some (.init false .empty)) (.bstr bstrVal) false base next
        | _ => return ⟨eInvalidArg, .init false .empty, next⟩

end

end Rac
