import DensoRobot.Common.Change

open HRESULT

-- The types of integers that are converted to each other.
inductive IntKind
  | i2
  | i4
  | i8
  | ui1
  | ui2
  | ui4
  | ui8
  deriving DecidableEq, Repr

namespace IntKind

def varType : IntKind → VarType
  | i2  => .i2
  | i4  => .i4
  | i8  => .i8
  | ui1 => .ui1
  | ui2 => .ui2
  | ui4 => .ui4
  | ui8 => .ui8

def type : IntKind → IntType
  | i2  => .int16
  | i4  => .int32
  | i8  => .int64
  | ui1 => .uint8
  | ui2 => .uint16
  | ui4 => .uint32
  | ui8 => .uint64

-- The variant that holds a number.
def variant (k : IntKind) (z : Int) : Variant :=
  .scalar k.varType (k.type.word z)

-- The type of the same size, as which the code reads the bits of a number on purpose.
def counterpart : IntKind → Option IntKind
  | i2  => some ui2
  | i4  => some ui4
  | i8  => some ui8
  | ui1 => none
  | ui2 => some i2
  | ui4 => some i4
  | ui8 => some i8

-- The type whose limits a number is compared with on its way to `k`.
def limit : IntKind → IntType
  | i2        => .int16
  | i4 | i8   => .int64
  | ui1 | ui2 => .uint16
  | ui4 | ui8 => .uint64

-- The type whose negative numbers are not refused on their way to `k`.
def sameSize : IntKind → Option VarType
  | ui2 => some .i2
  | ui4 => some .i4
  | ui8 => some .i8
  | _   => none

-- The numbers for which the limit is a wrong one.
def Misjudged : IntKind → IntKind → Int → Prop
  | i8,  i4,  z => ¬IntType.int32.InRange z
  | ui8, i4,  z => 2 ^ 31 ≤ z ∧ z < 2 ^ 63
  | ui1, ui1, _ => False
  | i2,  ui1, z => 0 ≤ z ∧ z < 2 ^ 8
  | _,   ui1, z => 2 ^ 8 ≤ z ∧ z < 2 ^ 16
  | i8,  ui4, z => 0 ≤ z ∧ z < 2 ^ 32
  | ui8, ui4, z => 2 ^ 32 ≤ z
  | _,   _,   _ => False

theorem bits_pos (k : IntKind) : 0 < k.type.bits := by
  cases k <;> decide

end IntKind

-- A conversion of `z` to an integer type, which leaves `kept` behind if it fails.
structure Converted (d : IntKind) (z : Int) (kept : Option Variant) (r : Changed) : Prop where
  succeeds : r.hr = sOk ↔ d.type.InRange z
  value    : r.hr = sOk → r.dest = d.variant z
  overflow : ¬d.type.InRange z → r.hr = eOverflow
  kept     : ¬d.type.InRange z → ∀ v ∈ kept, r.dest = v

section

variable (lib : Libc) (host : Host)

-- Whether the check for a conversion refuses a number.
def refuses (src : VarType) (n : Number) (d : IntKind) : Bool :=
  if d.type.signed then signedOverflow lib src n d.type d.limit
  else unsignedOverflow lib src n d.type d.limit d.sameSize

variable {s d : IntKind} {z : Int}

theorem changeValue_scalar {vt : VarType} {val : Nat} {n : Number} (h : vt.number val = some n)
    (isArray : Bool) (dst : VarType) (next : Nat) :
    changeValue lib host (.scalar vt val) isArray dst next =
      subChangeType lib host vt n (vt ≠ .bool) isArray dst next := by
  cases vt
  case empty | null | error => contradiction
  all_goals simp only [changeValue, h]

theorem number_variant (s : IntKind) (hz : s.type.InRange z) :
    s.varType.number (s.type.word z) = some (.int s.type z) := by
  have hn : s.varType.number (s.type.word z) =
      some (.int s.type (s.type.wrap (s.type.word z))) := by
    cases s <;> rfl
  rw [hn, IntType.wrap_word, IntType.wrap_of_inRange s.bits_pos hz]

theorem subChangeType_int (src : VarType) (n : Number) (d : IntKind)
    (hn : d.type.word (n.toInt lib d.type) = d.type.word z) (next : Nat) :
    subChangeType lib host src n true false d.varType next =
      .ok (if refuses lib src n d then .error eOverflow else .ok (d.variant z), next) := by
  rw [IntKind.variant, ← hn]
  cases d
  all_goals
    simp only [subChangeType, IntKind.varType, Bool.false_eq_true, if_false, Bool.true_and]
    refine (apply_ite Except.ok _ _ _).symm.trans <| congrArg Except.ok ?_
    exact (apply_ite (·, next) _ _ _).symm

-- The destination can be cleared, unless it is the source.
def Clearable (dest : Option Variant) : Prop :=
  ∀ v ∈ dest, ∃ blocks, variantClear v = .ok blocks

-- What is left behind in case of failure.
def leftover (dest : Option Variant) (src : Variant) : Variant :=
  if dest.isSome then .init false .empty else src

-- What a conversion makes of the value that it is to store.
def Changed.stored (kept : Variant) (r : Except HRESULT Variant) (next : Nat) : Changed :=
  match r with
  | .ok v     => ⟨sOk, v, next⟩
  | .error hr => ⟨hr, kept, next⟩

theorem variantChangeType_ne {dest : Option Variant} (hd : Clearable dest) {src : Variant}
    {isArray : Bool} {vt : VarType} (hne : src.vt ≠ VarType.word isArray vt) {next next' : Nat}
    {r : Except HRESULT Variant} (hr : changeValue lib host src isArray vt next = .ok (r, next')) :
    variantChangeType lib host dest src isArray vt next =
      .ok (.stored (leftover dest src) r next') := by
  cases dest
  case none => cases r <;> simp [variantChangeType, hne, leftover, hr, Changed.stored]
  case some v =>
    obtain ⟨blocks, hb⟩ := hd v rfl
    cases r <;> simp [variantChangeType, hne, leftover, hb, hr, Changed.stored]

-- The source, if it is changed in place.
def inPlace (dest : Option Variant) (src : Variant) : Option Variant :=
  if dest.isSome then none else some src

theorem leftover_inPlace {dest : Option Variant} {src : Variant} :
    ∀ v ∈ inPlace dest src, leftover dest src = v := by
  cases dest <;> simp [leftover, inPlace]

-- A conversion is exact iff its check refuses the numbers that are out of range.
theorem exact_iff_refused {kept : Option Variant} {left : Variant} (hk : ∀ v ∈ kept, left = v)
    {refused : Bool} (next : Nat) :
    Converted d z kept
      (.stored left (if refused then .error eOverflow else .ok (d.variant z)) next) ↔
      (refused = true ↔ ¬d.type.InRange z) := by
  have hne : eOverflow ≠ sOk := by decide
  cases refused
  case true =>
    constructor
    case mp  => exact fun h => ⟨fun _ hz => hne (h.succeeds.mpr hz), fun _ => rfl⟩
    case mpr =>
      intro h
      have hz := h.mp rfl
      exact ⟨⟨fun h => absurd h hne, fun h => absurd h hz⟩, fun h => absurd h hne, fun _ => rfl,
        fun _ => hk⟩
  case false =>
    constructor
    case mp  => exact fun h => ⟨fun h => by contradiction, fun hz => absurd (h.succeeds.mp rfl) hz⟩
    case mpr =>
      intro h
      have hz : d.type.InRange z := Decidable.of_not_not fun hz => by simpa using h.mpr hz
      exact ⟨⟨fun _ => hz, fun _ => rfl⟩, fun _ => rfl, fun h => absurd hz h, fun h => absurd hz h⟩

theorem misjudged_iff (hs : d ≠ s) (hc : s.counterpart ≠ some d) (hz : s.type.InRange z) :
    (refuses lib s.varType (.int s.type z) d = true ↔ ¬d.type.InRange z) ↔
      ¬IntKind.Misjudged s d z := by
  cases s <;> cases d
  all_goals first | exact absurd rfl hs | exact absurd rfl hc | skip
  all_goals
    simp [refuses, signedOverflow, unsignedOverflow, checkOverflow, IntKind.type, IntKind.varType,
      IntKind.limit, IntKind.sameSize, IntKind.Misjudged, VarType.isUnsigned,
        Number.bits, Number.lt,
      Number.gt, IntType.InRange, IntType.low, IntType.high, IntType.wrap, IntType.int16,
      IntType.int32, IntType.int64, IntType.uint8, IntType.uint16, IntType.uint32,
      IntType.uint64] at hz ⊢
    try omega

theorem vt_variant (k : IntKind) (z : Int) : (k.variant z).vt = VarType.word false k.varType :=
  rfl

theorem word_varType_inj : VarType.word false s.varType = VarType.word false d.varType ↔ s = d := by
  cases s <;> cases d <;> decide

-- Nothing is to be checked for a conversion to the same type.
theorem variantChangeType_same {dest : Option Variant} (hd : Clearable dest) (s : IntKind) (z : Int)
    (next : Nat) : variantChangeType lib host dest (s.variant z) false s.varType next =
      .ok ⟨sOk, s.variant z, next⟩ := by
  have hcopy : variantCopy host (s.variant z) next = .ok ⟨sOk, s.variant z, next⟩ := by
    cases s <;> rfl
  cases dest
  case none => simp [variantChangeType, vt_variant]
  case some v =>
    obtain ⟨blocks, hb⟩ := hd v rfl
    simp [variantChangeType, vt_variant, hb, hcopy]

-- A number is converted exactly, unless its check compares it with a wrong limit.
theorem variantChangeType_exact_iff {dest : Option Variant} (hd : Clearable dest)
    (hc : s.counterpart ≠ some d) (hz : s.type.InRange z) (next : Nat) :
    (∃ r, variantChangeType lib host dest (s.variant z) false d.varType next = .ok r ∧
      Converted d z (inPlace dest (s.variant z)) r) ↔ ¬IntKind.Misjudged s d z := by
  by_cases hs : d = s
  case pos =>
    subst hs
    have hm : ¬IntKind.Misjudged d d z := by
      cases d <;> exact id
    rw [variantChangeType_same lib host hd]
    refine iff_of_true ⟨_, rfl, ⟨fun _ => hz, fun _ => rfl⟩, fun _ => rfl, ?_, ?_⟩ hm
    all_goals exact fun h => absurd hz h
  case neg =>
    have hne : (s.variant z).vt ≠ VarType.word false d.varType :=
      fun h => hs (word_varType_inj.mp h).symm
    have hbool : decide (s.varType ≠ .bool) = true := by cases s <;> decide
    have hr := changeValue_scalar lib host (number_variant s hz) false d.varType next
    rw [hbool, subChangeType_int lib host s.varType (.int s.type z) d (d.type.word_wrap z)] at hr
    rw [variantChangeType_ne lib host hd hne hr, ← misjudged_iff lib hs hc hz,
      ← exact_iff_refused leftover_inPlace next]
    constructor
    case mp =>
      rintro ⟨r, h, he⟩
      exact Except.ok.inj h ▸ he
    case mpr => exact fun he => ⟨_, rfl, he⟩

end

-- A library for conversions that involve neither floating point numbers nor dates.
def integerFloat (size : Nat) : FloatType where
  size   := size
  ofInt  := fun z => z.toNat
  toInt  := fun _ bits => bits
  lt     := fun a b => a < b
  isZero := fun bits => bits = 0
  print  := fun bits => Libc.decimal bits
  parse  := fun _ => (0, [], false)

def integerLibc : Libc where
  float     := integerFloat 4
  double    := integerFloat 8
  widen     := id
  narrow    := id
  fltMin    := 0
  fltMax    := 0
  upper     := fun _ => 0
  printDate := fun _ => []
  parseDate := fun _ => none
  wcstombs  := fun chars => some (chars.map UInt8.ofNat)

-- A number is changed to a smaller type in place.
theorem i4_to_i2_exact : ∃ r,
    variantChangeType integerLibc ⟨fun _ => true, id, some⟩ none
      (IntKind.i4.variant (-7)) false .i2 0 =
        .ok r ∧
      Converted .i2 (-7) (some (IntKind.i4.variant (-7))) r :=
  variantChangeType_exact_iff integerLibc ⟨fun _ => true, id, some⟩ (s := .i4) (d := .i2)
    (fun v h => by contradiction) (by decide) (by decide) 0 |>.mpr id

-- The limit of the check turns negative, and 5 is refused.
theorem i2_to_ui1_refused : ¬∃ r,
    variantChangeType integerLibc ⟨fun _ => true, id, some⟩ none
      (IntKind.i2.variant 5) false .ui1 0 =
        .ok r ∧
      Converted .ui1 5 (some (IntKind.i2.variant 5)) r := by
  rintro ⟨r, hr, he⟩
  have hz : IntKind.ui1.type.InRange 5 := by decide
  cases hr
  exact absurd (he.succeeds.mpr hz) (by decide)
