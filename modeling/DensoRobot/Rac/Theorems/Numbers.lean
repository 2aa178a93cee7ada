import DensoRobot.Bcap.Wire
import DensoRobot.Common.Theorems.Numerals
import DensoRobot.Rac.Theorems.Convert

open HRESULT Bytes

namespace Numeral

-- The decimal digits of a number.
theorem exists_digits (m : Nat) : ∃ ds : List (Fin 10),
    ds.map digitText = (Nat.toDigits 10 m).map Char.toNat ∧ ds ≠ [] ∧
      (ds.head? = some 0 → ds = [0]) ∧ ds.foldl (fun v d => 10 * v + d.val) 0 = m := by
  induction m using Nat.strongRecOn
  case ind m ih =>
    by_cases hm : m < 10
    case pos =>
      have hchar : ∀ d : Fin 10, (Nat.digitChar d.val).toNat = digitText d := by decide
      refine ⟨[⟨m, hm⟩], ?_, List.cons_ne_nil _ _, ?_, ?_⟩
      case refine_1 =>
        rw [Nat.toDigits_of_lt_base hm]
        exact congrArg (fun c => [c]) (hchar ⟨m, hm⟩).symm
      case refine_2 => exact fun h => congrArg (fun d => [d]) (Option.some.inj h)
      case refine_3 => exact Nat.zero_add m
    case neg =>
      have hchar : ∀ d : Fin 10, (Nat.digitChar d.val).toNat = digitText d := by decide
      obtain ⟨ds, htext, hne, hhead, hval⟩ := ih (m / 10) (by omega)
      refine ⟨ds ++ [⟨m % 10, by omega⟩], ?_, by simp, ?_, ?_⟩
      case refine_1 =>
        rw [Nat.toDigits_of_base_le (by decide) (by omega), List.map_append, List.map_append, htext]
        exact congrArg (fun c => _ ++ [c]) (hchar ⟨m % 10, by omega⟩).symm
      case refine_2 =>
        intro h
        rw [List.head?_append_of_ne_nil _ hne] at h
        rw [hhead h] at hval
        have hzero : 0 = m / 10 := hval
        omega
      case refine_3 =>
        rw [List.foldl_append, hval]
        exact Nat.div_add_mod m 10

theorem exists_decimal (z : Int) : ∃ n : Numeral,
    n.text = Libc.decimal z ∧ n.value = z ∧ (n.negative = true ↔ z < 0) := by
  obtain ⟨ds, htext, hne, hhead, hval⟩ := exists_digits z.natAbs
  by_cases hz : z < 0
  case pos =>
    refine ⟨⟨some true, ds, hne, hhead⟩, ?_, ?_, iff_of_true rfl hz⟩
    case refine_1 => rw [text, htext, Libc.decimal, if_pos hz]; rfl
    case refine_2 =>
      have hv : value ⟨some true, ds, hne, hhead⟩ =
        -(ds.foldl (fun v d => 10 * v + d.val) 0 : Nat) := rfl
      rw [hv, hval]
      omega
  case neg =>
    refine ⟨⟨none, ds, hne, hhead⟩, ?_, ?_, iff_of_false (by simp [negative]) hz⟩
    case refine_1 => rw [text, htext, Libc.decimal, if_neg hz]; rfl
    case refine_2 =>
      have hv : value ⟨none, ds, hne, hhead⟩ = (ds.foldl (fun v d => 10 * v + d.val) 0 : Nat) := rfl
      rw [hv, hval]
      omega

end Numeral

namespace Rac

-- The types of the numbers that are printed exactly.
def isInteger : VarType → Bool
  | .i2 | .i4 | .i8 | .ui1 | .ui2 | .ui4 | .ui8 | .cy | .bool => true
  | _                                                        => false

-- The bits of a number, where a truth value is 0 or -1.
structure Printable (vt : VarType) (val : Nat) : Prop where
  type  : isInteger vt
  truth : vt = .bool → u16 val = 0 ∨ u16 val = 65535

-- A numeral that stands for the bits of a number.
structure Denotes (lib : Libc) (host : Host) (vt : VarType) (val : Nat) (n : Numeral) : Prop where
  printed : characters lib (.scalar vt val) = some n.text
  reread  : ∀ next, ∃ w, bstr2number lib host false vt n.text next =
    .ok (.ok (.scalar vt w), next) ∧
    toLe (Bcap.wireSize vt) w = toLe (Bcap.wireSize vt) val

section

variable (lib : Libc) (host : Host)

theorem toLe_word (k : IntKind) (val : Nat) : toLe (Bcap.wireSize k.varType) (k.type.word val) =
    toLe (Bcap.wireSize k.varType) val := by
  have hword : k.type.word val = val % 256 ^ Bcap.wireSize k.varType := by
    cases k
    all_goals
      simp only [IntType.word, IntKind.type, Bcap.wireSize, IntKind.varType, IntType.int16,
        IntType.int32, IntType.int64, IntType.uint8, IntType.uint16, IntType.uint32, IntType.uint64]
      omega
  rw [hword, toLe_mod]

theorem reread_kind (k : IntKind) (val : Nat) {n : Numeral} (hr : n.refused lib k = false)
    (hw : k.type.word n.value = k.type.word val) (next : Nat) :
    ∃ w, bstr2number lib host false k.varType n.text next = .ok (.ok (.scalar k.varType w), next) ∧
      toLe (Bcap.wireSize k.varType) w = toLe (Bcap.wireSize k.varType) val := by
  refine ⟨k.type.word val, ?_, toLe_word k val⟩
  rw [bstr2number_text, hr, ← hw]
  rfl

theorem refused_of_inRange {k : IntKind} {n : Numeral} (hz : k.type.InRange n.value)
    (hm : ¬Misread n k) : n.refused lib k = false := by
  have h := misread_iff lib n k |>.mpr hm
  rw [iff_false_right (not_not.mpr hz)] at h
  exact Bool.eq_false_iff.mpr h

-- A number that is printed as it is.
theorem denotes_plain (k : IntKind) (val : Nat) (hk : k ≠ .i4 ∧ k ≠ .ui4) :
    ∃ n, Denotes lib host k.varType val n := by
  obtain ⟨n, htext, hval, hneg⟩ := Numeral.exists_decimal (k.type.wrap val)
  have hz : k.type.InRange n.value := hval ▸ IntType.wrap_inRange k.bits_pos _
  have hw : k.type.word n.value = k.type.word val := by rw [hval, IntType.word_wrap]
  have hm : ¬Misread n k := by
    cases k
    case i4 | ui4       => simp at hk
    case i8             => exact id
    case i2 | ui1 | ui2 => exact fun h => h.2.1 hz
    case ui8            => exact fun h => Int.not_le.mpr (hneg.mp h.1) (hval ▸ hz.1)
  refine ⟨n, ?_, reread_kind lib host k val (refused_of_inRange lib hz hm) hw⟩
  rw [← n.wcs_text, htext]
  cases k
  case i4 | ui4 => simp at hk
  all_goals rfl

-- The conversions `%ld` and `%lu` print 64 bits, whose lower half is the number.
theorem denotes_wide (k : IntKind) (val : Nat) {t : IntType} (ht : 32 ≤ t.bits)
    (hk : k.type.bits = 32)
    (hn : ∀ n : Numeral, t.InRange n.value → (n.negative = true → n.value < 0) →
      n.refused lib k = false)
    (hp : ∃ upper : Nat, characters lib (.scalar k.varType val) =
      some (wcs (Libc.decimal (t.wrap (upper * 2 ^ 32 + k.type.word val : Nat))))) :
    ∃ n, Denotes lib host k.varType val n := by
  obtain ⟨upper, hp⟩ := hp
  obtain ⟨n, htext, hval, hneg⟩ :=
    Numeral.exists_decimal (t.wrap (upper * 2 ^ 32 + k.type.word val : Nat))
  have hz : t.InRange n.value := hval ▸ IntType.wrap_inRange (Nat.lt_of_lt_of_le (by decide) ht) _
  have hw : k.type.word n.value = k.type.word val := by
    rw [hval, IntType.word_wrap_of_le (hk ▸ ht)]
    simp only [IntType.word, hk]
    omega
  have hc : characters lib (.scalar k.varType val) = some n.text := by
    rw [hp, ← htext, n.wcs_text]
  exact ⟨n, hc, reread_kind lib host k val (hn n hz (hval ▸ hneg.mp)) hw⟩

theorem denotes_kind (k : IntKind) (val : Nat) : ∃ n, Denotes lib host k.varType val n := by
  cases k
  case i4 =>
    refine denotes_wide lib host .i4 val (t := .int64) (by decide) rfl ?_ ?_
    case refine_1 => exact fun n hz _ => decide_eq_false fun h => h hz
    case refine_2 =>
      refine ⟨lib.upper (IntType.int32.word (IntType.int32.wrap val)), ?_⟩
      have hw : IntKind.i4.type.word val = IntType.int32.word (IntType.int32.wrap val) :=
        (IntType.word_wrap .int32 val).symm
      rw [hw]
      rfl
  case ui4 =>
    refine denotes_wide lib host .ui4 val (t := .uint64) (by decide) rfl ?_ ?_
    case refine_1 =>
      intro n hz hneg
      have hpos : n.negative = false := Bool.eq_false_iff.mpr fun h => Int.not_le.mpr (hneg h) hz.1
      have hv : n.value = if n.negative then -(n.magnitude : Int) else n.magnitude := rfl
      have hlt : ¬2 ^ 64 ≤ n.magnitude := by
        have hhigh : n.value < 2 ^ 64 := hz.2
        rw [hv, hpos] at hhigh
        simp only [Bool.false_eq_true, if_false] at hhigh
        omega
      rw [Numeral.refused, decide_eq_false hlt, hpos]
      rfl
    case refine_2 =>
      refine ⟨lib.upper (IntType.uint32.word (IntType.uint32.wrap val)), ?_⟩
      have hw : IntKind.ui4.type.word val = IntType.uint32.word (IntType.uint32.wrap val) :=
        (IntType.word_wrap .uint32 val).symm
      rw [hw]
      rfl
  all_goals exact denotes_plain lib host _ val (by decide)

theorem denotes_cy (val : Nat) : ∃ n, Denotes lib host .cy val n := by
  obtain ⟨n, htext, hval, -⟩ := Numeral.exists_decimal (IntType.int64.wrap val)
  have hz : IntType.int64.InRange n.value := hval ▸ IntType.wrap_inRange (by decide) _
  refine ⟨n, by rw [← n.wcs_text, htext]; rfl, fun next => ⟨IntType.int64.word val, ?_, ?_⟩⟩
  case refine_1 =>
    have hscan := scanInteger_eq n.wcstol_text .cy .int64
    rw [decide_eq_false (not_not.mpr hz), hval, IntType.word_wrap] at hscan
    exact congrArg (fun r => Except.ok (r, next)) hscan
  case refine_2 => exact toLe_word .i8 val

theorem denotes_bool {val : Nat} (h : u16 val = 0 ∨ u16 val = 65535) :
    ∃ n, Denotes lib host .bool val n := by
  obtain ⟨n, htext, hval, -⟩ := Numeral.exists_decimal (IntType.int16.wrap val)
  have hz : IntType.int64.InRange n.value := by
    have hz := IntType.wrap_inRange (t := .int16) (by decide) (val : Int)
    rw [hval]
    exact ⟨Int.le_trans (by decide) hz.1, Int.lt_of_lt_of_le hz.2 (by decide)⟩
  have hs := n.wcstol_text
  rw [decide_eq_false (not_not.mpr hz)] at hs
  refine ⟨n, by rw [← n.wcs_text, htext]; rfl, fun next => ⟨u16 val, ?_, ?_⟩⟩
  case refine_1 =>
    have hread : rescanInteger lib host .bool .int32 .i4 (Libc.wcstol n.text) next =
        subChangeType lib host .i4 (.int .int32 (IntType.int32.wrap n.value)) true false
          .bool next := by
      simp only [rescanInteger, checkScanned, hs.next, hs.erange, hs.val]
      rfl
    have hbool : bstr2number lib host false .bool n.text next =
        rescanInteger lib host .bool .int32 .i4 (Libc.wcstol n.text) next := rfl
    rw [hbool, hread, hval]
    have hwrap : IntType.int16.wrap val = IntType.int16.wrap (u16 val : Nat) :=
      (IntType.wrap_emod .int16 val).symm
    cases h
    case inl h => rw [hwrap, h]; rfl
    case inr h => rw [hwrap, h]; rfl
  case refine_2 => exact toLe_mod 2 val

-- Each number can be told from what is printed for it.
theorem exists_numeral {vt : VarType} {val : Nat} (h : Printable vt val) :
    ∃ n, Denotes lib host vt val n := by
  cases vt
  case i2   => exact denotes_kind lib host .i2 val
  case i4   => exact denotes_kind lib host .i4 val
  case i8   => exact denotes_kind lib host .i8 val
  case ui1  => exact denotes_kind lib host .ui1 val
  case ui2  => exact denotes_kind lib host .ui2 val
  case ui4  => exact denotes_kind lib host .ui4 val
  case ui8  => exact denotes_kind lib host .ui8 val
  case cy   => exact denotes_cy lib host val
  case bool => exact denotes_bool lib host (h.truth rfl)
  all_goals exact absurd h.type (by simp [isInteger])

end
end Rac
