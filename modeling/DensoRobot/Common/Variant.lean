import DensoRobot.Common.Hresult

-- `VARENUM`, together with the values of a 16 bit type word that it does not name.
inductive VarType
  | empty
  | null
  | i2
  | i4
  | r4
  | r8
  | cy
  | date
  | bstr
  | error
  | bool
  | variant
  | ui1
  | ui2
  | ui4
  | i8
  | ui8
  | other (code : Nat)
  deriving DecidableEq, Repr

namespace VarType

def code : VarType → Nat
  | empty   => 0
  | null    => 1
  | i2      => 2
  | i4      => 3
  | r4      => 4
  | r8      => 5
  | cy      => 6
  | date    => 7
  | bstr    => 8
  | error   => 10
  | bool    => 11
  | variant => 12
  | ui1     => 17
  | ui2     => 18
  | ui4     => 19
  | i8      => 20
  | ui8     => 21
  | other n => n

def ofCode : Nat → VarType
  | 0  => empty
  | 1  => null
  | 2  => i2
  | 3  => i4
  | 4  => r4
  | 5  => r8
  | 6  => cy
  | 7  => date
  | 8  => bstr
  | 10 => error
  | 11 => bool
  | 12 => variant
  | 17 => ui1
  | 18 => ui2
  | 19 => ui4
  | 20 => i8
  | 21 => ui8
  | n  => other n

-- The types that `VARENUM` names.
def Known : VarType → Prop
  | other _ => False
  | _       => True

@[simp]
theorem ofCode_code {vt : VarType} (h : vt.Known) : ofCode vt.code = vt := by
  cases vt <;> first | rfl | exact h.elim

def vtArray : Nat := 0x2000

-- Splits a type word into its `VT_ARRAY` flag and the rest.
def ofWord (w : Nat) : Bool × VarType :=
  if w / vtArray % 2 = 1 then (true, ofCode (w - vtArray)) else (false, ofCode w)

def word (isArray : Bool) (vt : VarType) : Nat :=
  if isArray then vtArray + vt.code else vt.code

-- The types that a type word can tell, next to the flag.
structure Proper (vt : VarType) : Prop where
  lt     : vt.code < 65536
  flag   : vt.code / vtArray % 2 = 0
  ofCode : ofCode vt.code = vt

theorem Known.proper {vt : VarType} (h : vt.Known) : vt.Proper where
  lt     := by cases vt <;> first | exact h.elim | decide
  flag   := by cases vt <;> first | exact h.elim | decide
  ofCode := ofCode_code h

theorem Proper.word_lt {vt : VarType} (h : vt.Proper) (isArray : Bool) :
    word isArray vt < 65536 := by
  have hl := h.lt
  have hf := h.flag
  cases isArray
  case false => exact hl
  case true =>
    simp only [word, vtArray, if_true] at hf ⊢
    omega

theorem Proper.ofWord_word {vt : VarType} (h : vt.Proper) (isArray : Bool) :
    ofWord (word isArray vt) = (isArray, vt) := by
  have hf := h.flag
  cases isArray
  case false =>
    have hn : ¬vt.code / vtArray % 2 = 1 := by omega
    simp only [ofWord, word, Bool.false_eq_true, if_false, if_neg hn, h.ofCode]
  case true =>
    have hy : (vtArray + vt.code) / vtArray % 2 = 1 := by
      simp only [vtArray] at hf ⊢
      omega
    simp only [ofWord, word, if_true, if_pos hy, Nat.add_sub_cancel_left, h.ofCode]

theorem code_ofCode (n : Nat) : (ofCode n).code = n := by
  unfold ofCode
  split <;> rfl

theorem proper_ofCode {n : Nat} (hl : n < 65536) (hf : n / vtArray % 2 = 0) :
    (ofCode n).Proper where
  lt     := (code_ofCode n).symm ▸ hl
  flag   := (code_ofCode n).symm ▸ hf
  ofCode := by rw [code_ofCode]

theorem proper_ofWord {w : Nat} (h : w < 65536) : (ofWord w).2.Proper := by
  simp only [ofWord]
  split
  case isTrue hf =>
    simp only [vtArray] at hf ⊢
    exact proper_ofCode (by omega) (by simp only [vtArray]; omega)
  case isFalse hf => exact proper_ofCode h (by omega)

end VarType

-- The parts of the machine that the code relies on without implementing them: `malloc`, and the
-- floating point arithmetic between the seconds of a `DATE` and the days of its form on the wire.
structure Host where
  -- Whether the `n`-th request for memory is served.
  malloc : (n : Nat) → Bool
  -- (double) (*src) / _SEC_ONEDAY + _TIME_DIFFERENCE
  secondsToDays : Nat → Nat
  -- (DATE) ((dbl - _TIME_DIFFERENCE) * _SEC_ONEDAY), if 0 < dbl
  daysToSeconds : Nat → Option Nat

namespace Host

-- Memory blocks are numbered in the order of their allocation.
def alloc (host : Host) (next : Nat) : Option Nat × Nat :=
  (if host.malloc next then some next else none, next + 1)

-- A host that never runs out of memory.
def Ample (host : Host) : Prop :=
  ∀ n, host.malloc n = true

theorem alloc_of_malloc {host : Host} {next : Nat} (h : host.malloc next = true) :
    host.alloc next = (some next, next + 1) := by
  rw [alloc, if_pos h]

theorem alloc_of_not_malloc {host : Host} {next : Nat} (h : host.malloc next = false) :
    host.alloc next = (none, next + 1) := by
  rw [alloc, if_neg (Bool.not_eq_true _ ▸ h)]

@[simp]
theorem alloc_of_ample {host : Host} (h : host.Ample) (next : Nat) :
    host.alloc next = (some next, next + 1) :=
  alloc_of_malloc (h next)

end Host

-- A string on the heap: the characters that were written to it, which zeros follow.
structure Bstr where
  addr  : Nat
  chars : List Nat
  deriving DecidableEq, Repr

def wcs (chars : List Nat) : List Nat :=
  chars.takeWhile (· ≠ 0)

-- The characters in front of a zero.
theorem wcs_append_zero {cs : List Nat} (h : ∀ c ∈ cs, c ≠ 0) (ds : List Nat) :
    wcs (cs ++ 0 :: ds) = cs := by
  have ht : (cs ++ 0 :: ds).takeWhile (· ≠ 0) = cs ++ (0 :: ds).takeWhile (· ≠ 0) :=
    List.takeWhile_append_of_pos fun c hc => by simpa using h c hc
  rwa [List.takeWhile_cons_of_neg (by simp), List.append_nil] at ht

def wcslen (chars : List Nat) : Nat :=
  (wcs chars).length

theorem wcs_of_forall {chars : List Nat} (h : ∀ c ∈ chars, c ≠ 0) : wcs chars = chars := by
  have ht : (chars ++ []).takeWhile (· ≠ 0) = chars ++ ([] : List Nat).takeWhile (· ≠ 0) :=
    List.takeWhile_append_of_pos fun c hc => by simpa using h c hc
  rwa [List.append_nil, List.takeWhile_nil, List.append_nil] at ht

theorem wcs_wcs (chars : List Nat) : wcs (wcs chars) = wcs chars :=
  wcs_of_forall fun c hc => by simpa using List.all_eq_true.mp List.all_takeWhile c hc

def sysStringLen : Option Bstr → Nat
  | none      => 0
  | some bstr => u16 (wcslen bstr.chars)

-- The number of characters in the `minlen` bytes which `SysAllocStringLen` asks `malloc` for.
-- The number of bytes is computed in a `uint16_t`.
def bstrCapacity (cch : Nat) : Nat :=
  u16 (4 * (cch + 1)) / 4

def sysAllocStringLen (host : Host) (pch : List Nat) (cch : Nat) (next : Nat) :
    Exec (Option Bstr × Nat) :=
  match host.alloc next with
  | (none, next)      => pure (none, next)
  | (some addr, next) =>
    let minlen := min (u16 cch) (u16 (wcslen pch))
    if minlen ≤ bstrCapacity (u16 cch) then
      pure (some ⟨addr, (wcs pch).take minlen⟩, next)
    else
      throw .write

theorem bstrCapacity_eq (cch : Nat) : bstrCapacity cch = (cch + 1) % 16384 := by
  simp only [bstrCapacity, u16]
  omega

-- The members of a `SAFEARRAY` other than its data.
-- `cap` is the number of elements that fit into the memory which was requested for the data.
structure ArrayHeader where
  addr       : Nat
  pvData     : Option Nat
  lLbound    : Int
  cElements  : Nat
  cbElements : Nat
  cap        : Nat
  deriving DecidableEq, Repr

-- The size of an element as in `SafeArrayCreateVector`, where `none` is its default case.
def elemSize : VarType → Option Nat
  | .ui1                       => some 1
  | .i2 | .ui2 | .bool         => some 2
  | .i4 | .ui4 | .r4           => some 4
  | .i8 | .ui8 | .r8 | .cy     => some 8
  | .date                      => some 8
  | .bstr                      => some 8
  | .variant                   => some 24
  | _                          => none

-- The number of elements in the memory that `SafeArrayCreateVector` asks `malloc` for.
-- The number of bytes is computed in a `uint32_t`.
def vectorCapacity (cElements sz : Nat) : Nat :=
  u32 (cElements * sz) / sz

def safeArrayCreateVector (host : Host) (vt : VarType) (lLbound : Int) (cElements next : Nat) :
    Option ArrayHeader × Nat :=
  match host.alloc next with
  | (none, next)      => (none, next)
  | (some addr, next) =>
    if cElements = 0 then
      (some ⟨addr, none, lLbound, 0, 0, 0⟩, next)
    else
      match elemSize vt with
      | none    => (none, next)
      | some sz =>
        match host.alloc next with
        | (none, next)        => (none, next)
        | (some pvData, next) =>
          (some ⟨addr, some pvData, lLbound, cElements, sz, vectorCapacity cElements sz⟩, next)

-- The blocks of memory that are released for a string.
def sysFreeString : Option Bstr → List Nat
  | none      => []
  | some bstr => [bstr.addr]

-- A `VARIANT`. The member of its union is the one that belongs to its type.
-- Arrays come with the data that was written to them, which zeros follow.
inductive Variant
  | scalar (vt : VarType) (val : Nat)
  | bstr (bstrVal : Option Bstr)
  | nullArray (vt : VarType)
  | rawArray (vt : VarType) (psa : ArrayHeader) (data : List UInt8)
  | bstrArray (psa : ArrayHeader) (data : List (Option Bstr))
  | variantArray (psa : ArrayHeader) (data : List Variant)

namespace Variant

-- The base type of a variant, which the `VT_ARRAY` flag complements in its type word.
def base : Variant → VarType
  | scalar vt _ | nullArray vt | rawArray vt _ _ => vt
  | bstr _ | bstrArray _ _ => .bstr
  | variantArray _ _ => .variant

def isArray : Variant → Bool
  | scalar _ _ | bstr _ => false
  | nullArray _ | rawArray _ _ _ | bstrArray _ _ | variantArray _ _ => true

def vt (v : Variant) : Nat :=
  VarType.word v.isArray v.base

-- A variant whose type was set after `VariantInit` filled it with zeros.
def init : (isArray : Bool) → VarType → Variant
  | true,  vt    => nullArray vt
  | false, .bstr => bstr none
  | false, vt    => scalar vt 0

-- `SafeArrayGetUBound - SafeArrayGetLBound + 1`, all of which are computed on 32 bits.
def count (psa : ArrayHeader) : Nat :=
  let lbnd := psa.lLbound
  let ubnd := i32 (wordOfInt (psa.cElements + lbnd - 1))
  wordOfInt (ubnd - lbnd + 1)

theorem count_eq {psa : ArrayHeader} (h : psa.cElements < 4294967296) :
    count psa = psa.cElements := by
  have hw := i32_eq_or (wordOfInt (psa.cElements + psa.lLbound - 1))
  rw [u32_of_lt (wordOfInt_lt _)] at hw
  simp only [count, wordOfInt] at hw ⊢
  omega

end Variant

-- The data and the members of an array are released after its elements, each of which is read for
-- this.
def freeArray (psa : ArrayHeader) (elements : Exec (List Nat)) : Exec (List Nat) :=
  match psa.pvData with
  | none        => pure [psa.addr]
  | some pvData => do
    let blocks ← if psa.cElements ≤ psa.cap then elements else throw .read
    return blocks ++ [pvData, psa.addr]

mutual

-- The blocks of memory that `VariantClear` releases, in this order.
-- There is nothing to be released for the elements of an array that were not written to.
def variantClear : Variant → Exec (List Nat)
  | .scalar _ _ | .nullArray _ => pure []
  | .bstr bstrVal              => pure (sysFreeString bstrVal)
  | .rawArray _ psa _          => pure (psa.pvData.toList ++ [psa.addr])
  | .bstrArray psa data        => freeArray psa <| pure (data.flatMap sysFreeString)
  | .variantArray psa data     => freeArray psa <| variantsClear data

def variantsClear : List Variant → Exec (List Nat)
  | []      => pure []
  | v :: vs => do return (← variantClear v) ++ (← variantsClear vs)

end
