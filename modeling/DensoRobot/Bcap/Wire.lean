import DensoRobot.Bcap.Packet

open Bytes

namespace Bcap

-- What a variant stands for, irrespective of where and how it is stored.
-- Numbers are given by their bytes, and dates by those of their seconds.
inductive Value
  | number (vt : VarType) (data : List UInt8)
  | text (chars : List Nat)
  | numbers (vt : VarType) (count : Nat) (data : List UInt8)
  | texts (elems : List (List Nat))
  | variants (elems : List Value)

-- The number of bytes that a number of a given type takes on the wire.
def wireSize : VarType → Nat
  | .ui1                           => 1
  | .i2 | .ui2 | .bool             => 2
  | .i4 | .ui4 | .r4 | .error      => 4
  | .i8 | .ui8 | .r8 | .cy | .date => 8
  | _                              => 0

-- The number of bytes that an element of an array of numbers takes on the wire.
def elementSize : VarType → Nat
  | .error => 0
  | vt     => wireSize vt

-- The types of the numbers that are sent as they are stored.
def isNumber : VarType → Bool
  | .i2 | .i4 | .r4 | .r8 | .cy | .error | .bool | .ui1 | .ui2 | .ui4 | .i8 | .ui8 => true
  | _                                                                              => false

-- The types of the numbers that arrays may consist of.
def isElement (vt : VarType) : Bool :=
  isNumber vt && vt != .error

-- The characters of the strings that survive the way over the wire.
def IsText (chars : List Nat) : Prop :=
  chars.length ≤ 16382 ∧ ∀ c ∈ chars, 0 < c ∧ c < 65536

instance : Decidable (IsText chars) :=
  inferInstanceAs (Decidable (_ ∧ _))

-- The strings that can be told from their form on the wire, whatever becomes of them.
def IsWire (chars : List Nat) : Prop :=
  chars.length < 65536 ∧ ∀ c ∈ chars, c < 65536

theorem isWire_of_isText {chars : List Nat} (h : IsText chars) : IsWire chars :=
  ⟨Nat.lt_of_le_of_lt h.left (by decide), fun c hc => (h.right c hc).right⟩

theorem wcs_of_isText {chars : List Nat} (h : IsText chars) : wcs chars = chars :=
  wcs_of_forall fun c hc => Nat.ne_of_gt (h.right c hc).left

-- The payload of a string: its size in bytes, followed by its characters.
def textBytes (chars : List Nat) : List UInt8 :=
  toLe 4 (2 * chars.length) ++ chars.flatMap (toLe 2)

namespace Value

def base : Value → VarType
  | number vt _ | numbers vt _ _ => vt
  | text _ | texts _             => .bstr
  | variants _                   => .variant

def isArray : Value → Bool
  | number _ _ | text _                     => false
  | numbers _ _ _ | texts _ | variants _ => true

def vt (x : Value) : Nat :=
  VarType.word x.isArray x.base

def count : Value → Nat
  | number _ _ | text _ => 1
  | numbers _ count _   => count
  | texts elems         => elems.length
  | variants elems      => elems.length

mutual

def payload : Value → List UInt8
  | number _ data | numbers _ _ data => data
  | text chars                       => textBytes chars
  | texts elems                      => elems.flatMap textBytes
  | variants elems                   => bodies elems

-- A list of variants, where each payload comes behind its type and its number of elements.
def bodies : List Value → List UInt8
  | []      => []
  | x :: xs => toLe 2 x.vt ++ toLe 4 x.count ++ x.payload ++ bodies xs

end

def body (x : Value) : List UInt8 :=
  toLe 2 x.vt ++ toLe 4 x.count ++ x.payload

theorem bodies_cons (x : Value) (xs : List Value) : bodies (x :: xs) = x.body ++ bodies xs :=
  rfl

theorem length_body (x : Value) : x.body.length = 6 + x.payload.length := by
  simp [body, ← Nat.add_assoc]

-- An argument of a packet, which starts with the length of the rest.
def argument (x : Value) : List UInt8 :=
  toLe 4 x.body.length ++ x.body

def item (flag : Bool) (x : Value) : List UInt8 :=
  if flag then x.argument else x.body

theorem bodies_eq (xs : List Value) : bodies xs = xs.flatMap (item false) := by
  induction xs
  case nil          => rfl
  case cons x xs ih => simp [bodies_cons, ih, item]

mutual

-- The levels of nested variants.
def depth : Value → Nat
  | number _ _ | text _ | numbers _ _ _ | texts _ => 1
  | variants elems                                => 1 + depths elems

def depths : List Value → Nat
  | []      => 0
  | x :: xs => max x.depth (depths xs)

end

mutual

-- The values that can be told from their form on the wire.
def Sendable : Value → Prop
  | number vt data     => (isNumber vt ∨ vt = .empty) ∧ data.length = wireSize vt
  | text chars         => IsText chars
  | numbers vt n data  => isElement vt ∧ n < 4294967296 ∧ data.length = n * wireSize vt
  | texts elems        => ∀ chars ∈ elems, IsText chars
  | variants elems     => AllSendable elems

def AllSendable : List Value → Prop
  | []      => True
  | x :: xs => x.Sendable ∧ AllSendable xs

end

-- The values that a receiver can end up with, apart from dates. There is nothing behind a type that
-- it does not know, nor in an array of elements that it does not know.
mutual

def Readable : Value → Prop
  | number vt data     => vt.Proper ∧ vt ≠ .bstr ∧ vt ≠ .date ∧ data.length = wireSize vt
  | text chars         => IsText chars
  | numbers vt n data  =>
    vt.Proper ∧ (isElement vt ∨ n = 0 ∧ vt ≠ .bstr ∧ vt ≠ .variant) ∧ n < 4294967296 ∧
      data.length = n * wireSize vt
  | texts elems        => ∀ chars ∈ elems, IsText chars
  | variants elems     => AllReadable elems

def AllReadable : List Value → Prop
  | []      => True
  | x :: xs => x.Readable ∧ AllReadable xs

end

-- The values that can be told from their form on the wire, whatever becomes of them.
mutual

def Formed : Value → Prop
  | number vt data    => vt.Proper ∧ vt ≠ .bstr ∧ data.length = wireSize vt
  | text chars        => IsWire chars
  | numbers vt n data =>
    vt.Proper ∧ vt ≠ .bstr ∧ vt ≠ .variant ∧ n < 4294967296 ∧ data.length = n * elementSize vt
  | texts elems       => ∀ chars ∈ elems, IsWire chars
  | variants elems    => AllFormed elems

def AllFormed : List Value → Prop
  | []      => True
  | x :: xs => x.Formed ∧ AllFormed xs

end

-- The values that a receiver reads to their end: it creates no array of a type without a size, and
-- the number of bytes for a string is computed in a `uint16_t`.
mutual

def Receivable : Value → Prop
  | number _ _     => True
  | text chars     => chars.length ≤ 16382
  | numbers vt n _ => n = 0 ∨ (elemSize vt).isSome
  | texts elems    => elems.length * 8 < 4294967296 ∧ ∀ chars ∈ elems, chars.length ≤ 16382
  | variants elems => elems.length * 24 < 4294967296 ∧ AllReceivable elems

def AllReceivable : List Value → Prop
  | []      => True
  | x :: xs => x.Receivable ∧ AllReceivable xs

end

mutual

-- The number of bytes of an array's elements is computed in a `uint32_t` when memory is requested,
-- where the elements are pointers to strings, or variants.
def Creatable : Value → Prop
  | number _ _ | text _ | numbers _ _ _ => True
  | texts elems                         => elems.length * 8 < 4294967296
  | variants elems                      => elems.length * 24 < 4294967296 ∧ AllCreatable elems

def AllCreatable : List Value → Prop
  | []      => True
  | x :: xs => x.Creatable ∧ AllCreatable xs

end

end Value

theorem known_of_isNumber {vt : VarType} (h : isNumber vt ∨ vt = .empty) : vt.Known := by
  cases vt <;> simp_all [isNumber, VarType.Known]

theorem isNumber_of_isElement {vt : VarType} (h : isElement vt) : isNumber vt := by
  simp only [isElement, Bool.and_eq_true] at h
  exact h.left

namespace Value

mutual

theorem Sendable.readable : {x : Value} → x.Sendable → x.Readable
  | number vt _, h    =>
    ⟨(known_of_isNumber h.left).proper, fun he => absurd h.left (by rw [he]; decide),
      fun he => absurd h.left (by rw [he]; decide), h.right⟩
  | text _, h         => h
  | numbers _ _ _, h  =>
    ⟨(known_of_isNumber (.inl (isNumber_of_isElement h.left))).proper, .inl h.left, h.right⟩
  | texts _, h        => h
  | variants elems, h => (allReadable h : AllReadable elems)

theorem allReadable : {xs : List Value} → AllSendable xs → AllReadable xs
  | [], _     => trivial
  | _ :: _, h => ⟨Sendable.readable h.left, allReadable h.right⟩

end

mutual

theorem Readable.formed : {x : Value} → x.Readable → x.Formed
  | number _ _, h         => ⟨h.left, h.right.left, h.right.right.right⟩
  | text _, h             => isWire_of_isText h
  | numbers vt n data, h  => by
    have ⟨hp, he, hn, hd⟩ := h
    cases he
    case inr hz =>
      obtain ⟨rfl, hb, hv⟩ := hz
      exact ⟨hp, hb, hv, hn, by simpa using hd⟩
    case inl he =>
      refine ⟨hp, ?_, ?_, hn, ?_⟩
      · rintro rfl
        contradiction
      · rintro rfl
        contradiction
      · cases vt <;> first | exact hd | contradiction
  | texts _, h            => fun chars hc => isWire_of_isText (h chars hc)
  | variants elems, h     => (allFormed h : AllFormed elems)

theorem allFormed : {xs : List Value} → AllReadable xs → AllFormed xs
  | [], _     => trivial
  | _ :: _, h => ⟨Readable.formed h.left, allFormed h.right⟩

end

mutual

theorem Readable.receivable_iff : {x : Value} → x.Readable → (x.Receivable ↔ x.Creatable)
  | number _ _, _       => Iff.rfl
  | text _, h           => iff_of_true h.left trivial
  | numbers vt n _, h   => by
    refine iff_of_true (h.right.left.symm.imp (·.left) fun he => ?_) trivial
    cases vt <;> first | rfl | contradiction
  | texts _, h          => and_iff_left fun chars hc => (h chars hc).left
  | variants elems, h   => and_congr_right fun _ => (allReceivable_iff h : AllReceivable elems ↔ _)

theorem allReceivable_iff : {xs : List Value} → AllReadable xs →
    (AllReceivable xs ↔ AllCreatable xs)
  | [], _     => Iff.rfl
  | _ :: _, h => and_congr (Readable.receivable_iff h.left) (allReceivable_iff h.right)

end

theorem Formed.proper : {x : Value} → x.Formed → x.base.Proper
  | number _ _, h    => h.left
  | numbers _ _ _, h => h.left
  | text _, _ | texts _, _ | variants _, _ => VarType.Known.proper trivial

end Value

theorem length_textBytes (chars : List Nat) : (textBytes chars).length = 4 + 2 * chars.length := by
  have h : (chars.flatMap (toLe 2)).length = 2 * chars.length := by
    induction chars <;> simp [*]; omega
  simp [textBytes, h]

theorem length_texts_le (elems : List (List Nat)) :
    4 * elems.length ≤ (elems.flatMap textBytes).length := by
  induction elems
  case nil => simp
  case cons chars elems ih =>
    simp only [List.flatMap_cons, List.length_append, length_textBytes, List.length_cons]
    omega

theorem length_bodies_le (xs : List Value) : 6 * xs.length ≤ (Value.bodies xs).length := by
  induction xs
  case nil => simp
  case cons x xs ih =>
    simp only [Value.bodies, List.length_append, length_toLe, List.length_cons]
    omega

theorem length_argument (x : Value) : x.argument.length = 10 + x.payload.length := by
  simp only [Value.argument, Value.body, List.length_append, length_toLe]
  omega

theorem count_lt {x : Value} (h : x.Formed) (hl : x.payload.length < 4294967296) :
    x.count < 4294967296 := by
  cases x <;> simp only [Value.count, Value.payload] at hl ⊢
  case numbers => exact h.right.right.right.left
  case texts elems =>
    have := length_texts_le elems
    omega
  case variants elems =>
    have := length_bodies_le elems
    omega
  all_goals decide

-- The packet with the given arguments as it appears on the wire, where `crc` is empty or the
-- content of the CRC slot.
def frame (serial reserv : Nat) (id : Int) (args : List Value) (crc : List UInt8) : List UInt8 :=
  [bcapHeader] ++ toLe 4 (bcapSizeMin + (args.flatMap Value.argument).length + crc.length) ++
    toLe 2 serial ++ toLe 2 reserv ++ toLe 4 (wordOfInt id) ++ toLe 2 args.length ++
    args.flatMap Value.argument ++ crc ++ [bcapTerminator]

end Bcap

namespace Variant

open Bcap

def text : Option Bstr → List Nat
  | none   => []
  | some b => wcs b.chars

mutual

def value : Variant → Value
  | scalar vt val         => .number vt (toLe (wireSize vt) val)
  | bstr bstrVal          => .text (text bstrVal)
  | nullArray vt          => .numbers vt 0 []
  | rawArray vt psa data  => .numbers vt psa.cElements data
  | bstrArray _ data      => .texts (data.map text)
  | variantArray _ data   => .variants (values data)

def values : List Variant → List Value
  | []      => []
  | v :: vs => v.value :: values vs

end

mutual

-- The variants in whose arrays every element has been written.
def Stored : Variant → Prop
  | scalar _ _ | bstr _     => True
  | nullArray _             => False
  | rawArray _ psa _        => psa.cElements < 4294967296
  | bstrArray psa data      => psa.cElements < 4294967296 ∧ data.length = psa.cElements
  | variantArray psa data   =>
    psa.cElements < 4294967296 ∧ data.length = psa.cElements ∧ AllStored data

def AllStored : List Variant → Prop
  | []      => True
  | v :: vs => v.Stored ∧ AllStored vs

end

@[simp]
theorem length_values (vs : List Variant) : (values vs).length = vs.length := by
  induction vs <;> simp [values, *]

@[simp]
theorem vt_value (v : Variant) : v.value.vt = v.vt := by
  cases v <;> rfl

end Variant
