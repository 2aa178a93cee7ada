import DensoRobot.Common.Theorems.Integers

open HRESULT

-- A decimal numeral: an optional sign, which is true for a minus, and digits without leading zeros.
structure Numeral where
  sign   : Option Bool
  digits : List (Fin 10)
  ne     : digits ≠ []
  plain  : digits.head? = some 0 → digits = [0]

namespace Numeral

def signText : Option Bool → List Nat
  | none       => []
  | some false => [43]
  | some true  => [45]

def digitText (d : Fin 10) : Nat :=
  48 + d.val

def text (n : Numeral) : List Nat :=
  signText n.sign ++ n.digits.map digitText

def negative (n : Numeral) : Bool :=
  n.sign = some true

def magnitude (n : Numeral) : Nat :=
  n.digits.foldl (fun v d => 10 * v + d.val) 0

def value (n : Numeral) : Int :=
  if n.negative then -n.magnitude else n.magnitude

section

variable (n : Numeral)

@[simp]
theorem digitVal_digitText : ∀ d : Fin 10, Libc.digitVal (digitText d) = d.val := by
  decide

theorem not_isSpace_digitText : ∀ d : Fin 10, Libc.isSpace (digitText d) = false := by
  decide

theorem digitText_ne_sign : ∀ d : Fin 10, digitText d ≠ 45 ∧ digitText d ≠ 43 := by
  decide

theorem digitText_ne_zero : ∀ d : Fin 10, d ≠ 0 → digitText d ≠ 48 := by
  decide

theorem ofDigits_digits (ds : List (Fin 10)) :
    Libc.ofDigits 10 (ds.map digitText) = ds.foldl (fun v d => 10 * v + d.val) 0 := by
  simp [Libc.ofDigits, List.foldl_map]

theorem takeWhile_digits {base : Nat} {ds : List (Fin 10)} (h : ∀ d ∈ ds, d.val < base) :
    (ds.map digitText).takeWhile (Libc.digitVal · < base) = ds.map digitText := by
  induction ds
  case nil => rfl
  case cons d ds ih =>
    have ⟨hd, hds⟩ := List.forall_mem_cons.mp h
    rw [List.map_cons, List.takeWhile_cons_of_pos (by simpa using hd), ih hds]

theorem takeSign_text : Libc.takeSign (n.text.dropWhile Libc.isSpace) =
    (n.negative, n.digits.map digitText) := by
  obtain ⟨sign, digits, ne, plain⟩ := n
  cases digits
  case nil => contradiction
  case cons d ds =>
    cases sign
    case some minus => cases minus <;> rfl
    case none =>
      have hd := List.dropWhile_cons_of_neg (l := ds.map digitText)
        (Bool.eq_false_iff.mp <| not_isSpace_digitText d)
      rw [text, signText, List.nil_append, List.map_cons, hd]
      simp [Libc.takeSign, digitText_ne_sign d, negative]

-- Leading zeros apart, the base is 10. The numeral 0 has base 8.
theorem takeBase_text : ∃ base, Libc.takeBase (n.digits.map digitText) =
    (base, n.digits.map digitText) ∧ (∀ d ∈ n.digits, d.val < base) ∧
      Libc.ofDigits base (n.digits.map digitText) = n.magnitude := by
  by_cases h : n.digits.head? = some 0
  case pos =>
    refine ⟨8, ?_, ?_, ?_⟩
    all_goals simp [n.plain h, magnitude, Libc.takeBase, digitText, Libc.ofDigits, Libc.digitVal]
  case neg =>
    refine ⟨10, ?_, fun d _ => d.isLt, ofDigits_digits n.digits⟩
    cases hn : n.digits
    case nil => rfl
    case cons d ds =>
      have hd := digitText_ne_zero d fun hd => h (by rw [hn, hd]; rfl)
      simp [Libc.takeBase, hd]

theorem parse_text : Libc.parse n.text = ⟨n.negative, n.magnitude, []⟩ := by
  obtain ⟨base, hb, hlt, hm⟩ := n.takeBase_text
  simp only [Libc.parse, takeSign_text, hb, takeWhile_digits hlt, hm, List.map_eq_nil_iff,
    if_neg n.ne, List.drop_length]

theorem value_parsed : (Libc.Parsed.mk n.negative n.magnitude []).value = n.value :=
  rfl

theorem wcs_text : wcs n.text = n.text := by
  have hdigit : ∀ d : Fin 10, digitText d ≠ 0 := by decide
  refine wcs_of_forall fun c hc => ?_
  cases List.mem_append.mp hc
  case inl hc =>
    cases hs : n.sign
    case none   => simp [hs, signText] at hc
    case some b => cases b <;> simp_all [signText]
  case inr hc =>
    obtain ⟨d, _, rfl⟩ := List.mem_map.mp hc
    exact hdigit d

-- All characters are read, and the number is in range or not.
structure Scans (r : Libc.Scanned) (exceeds : Bool) (z : Int) : Prop where
  next   : r.next = 0
  erange : r.erange = exceeds
  val    : exceeds = false → r.val = z

theorem wcstol_text : Scans (Libc.wcstol n.text) (¬IntType.int64.InRange n.value) n.value := by
  simp only [Libc.wcstol, parse_text, value_parsed]
  by_cases hl : n.value < IntType.int64.low
  case pos =>
    have hz : ¬IntType.int64.InRange n.value := fun h => Int.not_le.mpr hl h.left
    rw [if_pos hl, decide_eq_true hz]
    exact ⟨rfl, rfl, fun h => by contradiction⟩
  case neg =>
    by_cases hu : IntType.int64.high ≤ n.value
    case pos =>
      have hz : ¬IntType.int64.InRange n.value := fun h => Int.not_lt.mpr hu h.right
      rw [if_neg hl, if_pos hu, decide_eq_true hz]
      exact ⟨rfl, rfl, fun h => by contradiction⟩
    case neg =>
      have hz : IntType.int64.InRange n.value := ⟨Int.not_lt.mp hl, Int.not_le.mp hu⟩
      rw [if_neg hl, if_neg hu, decide_eq_false fun h => h hz]
      exact ⟨rfl, rfl, fun _ => rfl⟩

theorem wcstoul_text :
    Scans (Libc.wcstoul n.text) (2 ^ 64 ≤ n.magnitude) (IntType.uint64.wrap n.value) := by
  have hm : IntType.uint64.high ≤ n.magnitude ↔ 2 ^ 64 ≤ n.magnitude := by
    have hh : IntType.uint64.high = ((2 ^ 64 : Nat) : Int) := rfl
    rw [hh]
    exact Int.ofNat_le
  simp only [Libc.wcstoul, parse_text, value_parsed, hm]
  by_cases hu : 2 ^ 64 ≤ n.magnitude
  case pos =>
    rw [if_pos hu, decide_eq_true hu]
    exact ⟨rfl, rfl, fun h => by contradiction⟩
  case neg =>
    rw [if_neg hu, decide_eq_false hu]
    exact ⟨rfl, rfl, fun _ => rfl⟩

theorem text_ne : n.text ≠ [] :=
  fun h => n.ne <| List.map_eq_nil_iff.mp (List.append_eq_nil_iff.mp h).right

theorem head?_text : n.text.head? = some 45 ↔ n.negative = true := by
  cases hs : n.sign
  case some minus => cases minus <;> simp [text, hs, signText, negative]
  case none =>
    cases hd : n.digits
    case nil => exact absurd hd n.ne
    case cons d ds => simp [text, hs, hd, signText, negative, digitText_ne_sign d]

-- Whether a numeral is refused on its way to an integer type.
def refused (lib : Libc) : IntKind → Bool
  | .i4 | .i8   => ¬IntType.int64.InRange n.value
  | .ui4 | .ui8 => decide (2 ^ 64 ≤ n.magnitude) || n.negative
  | .i2         =>
    decide (¬IntType.int64.InRange n.value) ||
      refuses lib .i4 (.int .int32 <| IntType.int32.wrap n.value) .i2
  | .ui1        =>
    decide (2 ^ 64 ≤ n.magnitude) ||
      refuses lib .ui4 (.int .uint32 <| IntType.uint32.wrap <| IntType.uint64.wrap n.value) .ui1
  | .ui2        =>
    decide (2 ^ 64 ≤ n.magnitude) ||
      refuses lib .ui4 (.int .uint32 <| IntType.uint32.wrap <| IntType.uint64.wrap n.value) .ui2

end
end Numeral

section

variable (lib : Libc) (host : Host)

theorem scanInteger_eq {r : Libc.Scanned} {exceeds : Bool} {z : Int} (h : Numeral.Scans r exceeds z)
    (vt : VarType) (t : IntType) :
    scanInteger vt t r = if exceeds then .error eOverflow else .ok (.scalar vt (t.word z)) := by
  cases exceeds
  case true  => simp [scanInteger, checkScanned, h.next, h.erange]
  case false => simp [scanInteger, checkScanned, h.next, h.erange, h.val]

theorem unlessNegative_eq (n : Numeral) (exceeds : Bool) (v : Variant) :
    unlessNegative n.text (if exceeds then .error eOverflow else .ok v) =
      if exceeds || n.negative then .error eOverflow else .ok v := by
  cases exceeds
  case true  => rfl
  case false => simp [unlessNegative, n.head?_text]

theorem rescanInteger_eq {r : Libc.Scanned} {exceeds : Bool} {z : Int}
    (h : Numeral.Scans r exceeds z)
    (k : IntKind) {t : IntType} (ht : k.type.bits ≤ t.bits) (src : VarType) (next : Nat) :
    rescanInteger lib host k.varType t src r next =
      .ok (if exceeds || refuses lib src (.int t <| t.wrap z) k then .error eOverflow
        else .ok (k.variant z), next) := by
  cases exceeds
  case true  => simp [rescanInteger, checkScanned, h.next, h.erange]
  case false =>
    have hw := subChangeType_int lib host src (.int t <| t.wrap z) k (z := z)
      ((IntType.word_wrap _ _).trans <| IntType.word_wrap_of_le ht z) next
    simp [rescanInteger, checkScanned, h.next, h.erange, h.val, hw]

theorem bstr2number_text (k : IntKind) (n : Numeral) (next : Nat) :
    bstr2number lib host false k.varType n.text next =
      .ok (if n.refused lib k then .error eOverflow else .ok (k.variant n.value), next) := by
  have hl := n.wcstol_text
  have hul := n.wcstoul_text
  cases k
  case i4 | i8 =>
    simp only [bstr2number, IntKind.varType, Bool.false_eq_true, if_false, scanInteger_eq hl]
    rfl
  case ui4 | ui8 =>
    simp only [bstr2number, IntKind.varType, Bool.false_eq_true, if_false, scanInteger_eq hul,
      unlessNegative_eq]
    rw [IntType.word_wrap_of_le (by decide)]
    rfl
  case i2 =>
    have h := rescanInteger_eq lib host hl .i2 (t := .int32) (by decide) .i4 next
    simp only [bstr2number, IntKind.varType, Bool.false_eq_true, if_false]
    exact h
  case ui1 =>
    have h := rescanInteger_eq lib host hul .ui1 (t := .uint32) (by decide) .ui4 next
    rw [IntKind.variant, IntType.word_wrap_of_le (by decide)] at h
    simp only [bstr2number, IntKind.varType, Bool.false_eq_true, if_false]
    exact h
  case ui2 =>
    have h := rescanInteger_eq lib host hul .ui2 (t := .uint32) (by decide) .ui4 next
    rw [IntKind.variant, IntType.word_wrap_of_le (by decide)] at h
    simp only [bstr2number, IntKind.varType, Bool.false_eq_true, if_false]
    exact h

-- The numerals for which the number is narrowed before it is compared, or their sign is taken for
-- the one of a negative number.
def Misread (n : Numeral) : IntKind → Prop
  | .i8         => False
  | .i4         => IntType.int64.InRange n.value ∧ ¬IntType.int32.InRange n.value
  | .i2         =>
    IntType.int64.InRange n.value ∧ ¬IntType.int16.InRange n.value ∧
      IntType.int16.InRange (IntType.int32.wrap n.value)
  | .ui1        =>
    n.magnitude < 2 ^ 64 ∧ ¬IntType.uint8.InRange n.value ∧ IntType.uint32.wrap n.value < 2 ^ 16
  | .ui2        =>
    n.magnitude < 2 ^ 64 ∧ ¬IntType.uint16.InRange n.value ∧ IntType.uint32.wrap n.value < 2 ^ 16
  | .ui4        =>
    if n.negative then n.magnitude = 0 else 2 ^ 32 ≤ n.magnitude ∧ n.magnitude < 2 ^ 64
  | .ui8        => n.negative ∧ n.magnitude = 0

theorem misread_iff (n : Numeral) (k : IntKind) :
    (n.refused lib k = true ↔ ¬k.type.InRange n.value) ↔ ¬Misread n k := by
  have hz : n.value = if n.negative then -(n.magnitude : Int) else n.magnitude := rfl
  cases k
  all_goals
    simp only [Numeral.refused, Misread]
    generalize n.value = z at hz ⊢
    generalize n.magnitude = m at hz ⊢
    generalize n.negative = minus at hz ⊢
    cases minus
    all_goals
      simp [refuses, signedOverflow, unsignedOverflow, checkOverflow, IntKind.type,
        IntKind.limit, IntKind.sameSize, VarType.isUnsigned, Number.bits, Number.lt, Number.gt,
        IntType.InRange, IntType.low, IntType.high, IntType.wrap, IntType.int16, IntType.int32,
        IntType.int64, IntType.uint8, IntType.uint16, IntType.uint32, IntType.uint64] at hz ⊢
      try omega

-- A numeral is converted exactly, unless it is refused though it is in range, or the other way
-- round.
theorem numeral_exact_iff {dest : Option Variant} (hd : Clearable dest) (k : IntKind) (n : Numeral)
    {b : Bstr} (hb : wcs b.chars = n.text) (next : Nat) :
    (∃ r, variantChangeType lib host dest (.bstr (some b)) false k.varType next = .ok r ∧
      Converted k n.value none r) ↔ ¬Misread n k := by
  have hne : (Variant.bstr (some b)).vt ≠ VarType.word false k.varType := by
    have hvt : (Variant.bstr (some b)).vt = 8 := rfl
    rw [hvt]
    cases k <;> decide
  have hr : changeValue lib host (.bstr (some b)) false k.varType next =
      .ok (if n.refused lib k then .error eOverflow else .ok (k.variant n.value), next) := by
    rw [changeValue, bstr2variant, hb, if_neg n.text_ne, bstr2number_text]
  have hk : ∀ v ∈ (none : Option Variant), leftover dest (.bstr (some b)) = v :=
    fun v h => by contradiction
  rw [variantChangeType_ne lib host hd hne hr, ← misread_iff lib, ← exact_iff_refused hk next]
  constructor
  case mp =>
    rintro ⟨r, h, he⟩
    exact Except.ok.inj h ▸ he
  case mpr => exact fun he => ⟨_, rfl, he⟩

end

-- A string in the place of its number.
theorem minus12_exact : ∃ r,
    variantChangeType integerLibc ⟨fun _ => true, id, some⟩ none
        (.bstr (some ⟨0, [45, 49, 50, 0, 7]⟩)) false .i2 1 = .ok r ∧
      Converted .i2 (-12) none r :=
  numeral_exact_iff integerLibc ⟨fun _ => true, id, some⟩ (fun v h => by contradiction) .i2
    ⟨some true, [1, 2], by decide, by decide⟩ (b := ⟨0, [45, 49, 50, 0, 7]⟩) (by decide) 1 |>.mpr
      fun h => h.right.left (by decide)

-- The number 2^32 is narrowed to 32 bits, and 0 is stored.
theorem narrowed_numeral : ¬∃ r,
    variantChangeType integerLibc ⟨fun _ => true, id, some⟩ none
        (.bstr (some ⟨0, [52, 50, 57, 52, 57, 54, 55, 50, 57, 54]⟩)) false .i4 1 = .ok r ∧
      Converted .i4 4294967296 none r := by
  rintro ⟨r, hr, he⟩
  have hz : ¬IntKind.i4.type.InRange 4294967296 := by decide
  cases hr
  exact absurd (he.overflow hz) (by decide)
