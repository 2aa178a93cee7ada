import Mathlib.Data.List.TakeWhile
import DensoRobot.Rac.Theorems.Split
import DensoRobot.Rac.Theorems.Text

open HRESULT Bytes Brackets

namespace Rac

theorem ofNat_ne {c d : Nat} (hc : c < 128) (hd : d < 128) (h : c ≠ d) :
    UInt8.ofNat c ≠ UInt8.ofNat d := by
  intro he
  have ht := congrArg UInt8.toNat he
  rw [UInt8.toNat_ofNat', UInt8.toNat_ofNat', Nat.mod_eq_of_lt (by omega),
    Nat.mod_eq_of_lt (by omega)] at ht
  exact h ht

theorem segment_of_literal {s : List Nat} (h : ∀ c ∈ s, Literal c) : Segment (bytes s) := by
  refine .of_forall fun c hc => ?_
  obtain ⟨n, hn, rfl⟩ := List.mem_map.mp hc
  have hlit := h n hn
  exact ⟨⟨ofNat_ne hlit.ascii (d := 40) (by decide) hlit.ne_open,
    ofNat_ne hlit.ascii (d := 41) (by decide) hlit.ne_close⟩,
    ofNat_ne hlit.ascii (d := 44) (by decide) hlit.ne_comma⟩

-- Brackets around a text in which the brackets are balanced.
theorem segment_nest {s : List Nat} (h : Nested 40 41 (fun _ => True) s)
    (hascii : ∀ c ∈ s, c < 128) :
    Segment (bytes (40 :: s ++ [41])) := by
  have hin : Nested 40 41 (fun _ => True) (bytes s) :=
    h.map fun c hc => ⟨ofNat_ne (hascii c hc) (by decide), ofNat_ne (hascii c hc) (by decide),
      fun _ => trivial⟩
  have hnest : Nested 40 41 (· ≠ 44) (40 :: bytes s ++ 41 :: []) := .nest hin .nil
  simpa [bytes, Segment] using hnest

theorem bytes_intercalate (l : List (List Nat)) :
    bytes ([44].intercalate l) = [44].intercalate (l.map bytes) := by
  induction l
  case nil => rfl
  case cons s l ih =>
    cases l
    case nil      => simp
    case cons t l =>
      rw [List.intercalate_cons_cons, bytes_append, bytes_append, ih]
      exact List.intercalate_cons_cons.symm

section

variable {lib : Libc}

theorem nested_of_literal {s : List Nat} (h : ∀ c ∈ s, Literal c) :
    Nested 40 41 (fun _ => True) s :=
  .of_forall fun c hc => ⟨⟨(h c hc).ne_open, (h c hc).ne_close⟩, trivial⟩

theorem nested_intercalate {l : List (List Nat)} (h : ∀ s ∈ l, Nested 40 41 (fun _ => True) s) :
    Nested 40 41 (fun _ => True) ([44].intercalate l) := by
  induction l
  case nil => exact .nil
  case cons s l ih =>
    obtain ⟨hs, hl⟩ := List.forall_mem_cons.mp h
    rw [intercalate_cons]
    refine (hs.append ?_).append (ih hl)
    split
    case isTrue  => exact .nil
    case isFalse => exact .char (by decide) (by decide) trivial .nil

-- An element of an array of variants without the brackets around it.
theorem nested_element {s : List Nat} (vt : Nat) (h : Nested 40 41 (fun _ => True) s) :
    Nested 40 41 (fun _ => True) (Libc.decimal vt ++ 44 :: s) :=
  (nested_of_literal (literal_decimal vt)).append (.char (by decide) (by decide) trivial h)

mutual

-- The brackets in a text within an array of variants are balanced.
theorem nested_racText : (v : Variant) → Textual v → Closed v →
    Nested 40 41 (fun _ => True) (racText lib v)
  | .scalar _ _, hv, _ => nested_of_literal (literal_number hv)
  | .bstr _, _, hc => hc
  | .nullArray _, hv, _ => absurd hv (by simp [Textual])
  | .rawArray vt psa data, ⟨_, _, _, _, hvals⟩, _ => by
    refine nested_intercalate fun s hs => ?_
    obtain ⟨val, hval, rfl⟩ := List.mem_map.mp hs
    exact nested_of_literal (literal_number (hvals val hval))
  | .bstrArray psa data, ⟨_, _, _, hbs⟩, _ => by
    refine nested_intercalate fun s hs => ?_
    obtain ⟨b, hb, rfl⟩ := List.mem_map.mp hs
    exact nested_of_literal (hbs b hb).2
  | .variantArray _ data, ⟨_, _, _, hvs⟩, _ => nested_intercalate (nested_racItems data hvs)

theorem nested_racItems : (vs : List Variant) → AllTextual vs →
    ∀ s ∈ racItems lib vs, Nested 40 41 (fun _ => True) s
  | [],      _         => by simp [racItems]
  | v :: vs, ⟨hv, hvs⟩ => by
    refine List.forall_mem_cons.mpr ⟨?_, nested_racItems vs hvs⟩
    have hnest : Nested 40 41 (fun _ => True) _ :=
      .nest (nested_element v.vt (nested_racText v hv.1 hv.2)) .nil
    rwa [← List.cons_append] at hnest

end

theorem segment_racItems {vs : List Variant} (h : AllTextual vs) :
    ∀ s ∈ racItems lib vs, Segment (bytes s) := by
  induction vs
  case nil => simp [racItems]
  case cons v vs ih =>
    obtain ⟨⟨hv, hc⟩, hvs⟩ := h
    refine List.forall_mem_cons.mpr ⟨?_, ih hvs⟩
    have hascii : ∀ c ∈ Libc.decimal v.vt ++ 44 :: racText lib v, c < 128 := by
      rw [List.forall_mem_append, List.forall_mem_cons]
      exact ⟨fun c hc => (literal_decimal v.vt c hc).ascii, by decide,
        fun c hc => (ascii_racText v hv c hc).2⟩
    exact segment_nest (nested_element v.vt (nested_racText v hv hc)) hascii

theorem strchr_append {s t : List UInt8} {c : UInt8} (h : c ∉ s) :
    strchr (s ++ c :: t) c = some (s, t) := by
  have hs : ∀ d ∈ s, (d ≠ c : Bool) = true := fun d hd => decide_eq_true fun he => h (he ▸ hd)
  have hmem : c ∈ s ++ c :: t := List.mem_append_right s List.mem_cons_self
  rw [strchr, if_pos hmem, List.takeWhile_append_of_pos hs, List.dropWhile_append_of_pos hs]
  simp

theorem strrchr_append {s t : List UInt8} {c : UInt8} (h : c ∉ t) :
    strrchr (s ++ c :: t) c = some (s, t) := by
  have hr : (s ++ c :: t).reverse = t.reverse ++ c :: s.reverse := by simp
  rw [strrchr, hr, strchr_append (by simpa using h)]
  simp

-- The digits of a type.
theorem decimal_vt (vt : Nat) : ∃ ds : List (Fin 10), Libc.decimal vt = ds.map Numeral.digitText ∧
    ds.foldl (fun v d => 10 * v + d.val) 0 = vt := by
  obtain ⟨ds, htext, -, -, hval⟩ := Numeral.exists_digits vt
  have hneg : ¬(vt : Int) < 0 := Int.not_lt.mpr (Int.natCast_nonneg vt)
  exact ⟨ds, by rw [Libc.decimal, if_neg hneg, Int.natAbs_natCast, htext], hval⟩

theorem atoi_decimal {vt : Nat} (h : vt < 65536) :
    u16 (wordOfInt (atoi (bytes (Libc.decimal vt)))) = vt := by
  obtain ⟨ds, hds, hval⟩ := decimal_vt vt
  have hdigit : ∀ d : Fin 10, UInt8.ofNat (Numeral.digitText d) ≠ 32 ∧
      UInt8.ofNat (Numeral.digitText d) ∈ digitsAndBlanks.tail ∧
      (UInt8.ofNat (Numeral.digitText d)).toNat = Numeral.digitText d := by decide
  have hdrop : (bytes (ds.map Numeral.digitText)).dropWhile (· = 32) =
      bytes (ds.map Numeral.digitText) := by
    cases ds
    case nil       => rfl
    case cons d ds => exact List.dropWhile_cons_of_neg (by simpa using (hdigit d).1)
  have htake : (bytes (ds.map Numeral.digitText)).takeWhile (· ∈ digitsAndBlanks.tail) =
      bytes (ds.map Numeral.digitText) := by
    refine List.takeWhile_eq_self_iff.mpr fun c hc => ?_
    simp only [bytes, List.map_map, List.mem_map, Function.comp_apply] at hc
    obtain ⟨d, -, rfl⟩ := hc
    exact decide_eq_true (hdigit d).2.1
  have hnat : (bytes (ds.map Numeral.digitText)).map UInt8.toNat = ds.map Numeral.digitText := by
    rw [bytes, List.map_map, List.map_map]
    exact List.map_congr_left fun d _ => (hdigit d).2.2
  have hint : i32 (min vt (2 ^ 63 - 1)) = vt := by
    rw [Nat.min_eq_left (by omega), i32, u32_of_lt (by omega), if_pos (by omega)]
  rw [hds, atoi, hdrop, htake, hnat, Numeral.ofDigits_digits, hval, hint]
  simp only [wordOfInt, u16]
  omega

theorem notMem_bytes {s : List Nat} {c : Nat} (hs : ∀ d ∈ s, d < 128 ∧ d ≠ c) (hc : c < 128) :
    UInt8.ofNat c ∉ bytes s := by
  intro h
  obtain ⟨d, hd, he⟩ := List.mem_map.mp h
  exact ofNat_ne (hs d hd).1 hc (hs d hd).2 he

-- An element of an array of variants is taken apart.
theorem racElement_item (vt : Nat) (text : List Nat) :
    racElement (bytes (40 :: Libc.decimal vt ++ 44 :: text ++ [41])) =
      some (bytes (Libc.decimal vt), bytes text) := by
  have hbytes : bytes (40 :: Libc.decimal vt ++ 44 :: text ++ [41]) =
      [] ++ 40 :: (bytes (Libc.decimal vt) ++ 44 :: bytes text ++ 41 :: []) := by simp [bytes]
  have hcomma : (44 : UInt8) ∉ bytes (Libc.decimal vt) :=
    notMem_bytes (c := 44) (fun d hd =>
      ⟨(literal_decimal vt d hd).ascii, (literal_decimal vt d hd).ne_comma⟩) (by decide)
  have hdigits : consistsOf (bytes (Libc.decimal vt)) digitsAndBlanks = true := by
    obtain ⟨ds, hds, -⟩ := decimal_vt vt
    have hdigit : ∀ d : Fin 10, UInt8.ofNat (Numeral.digitText d) ∈ digitsAndBlanks := by decide
    rw [hds, consistsOf, List.all_eq_true]
    intro c hc
    simp only [bytes, List.map_map, List.mem_map, Function.comp_apply] at hc
    obtain ⟨d, -, rfl⟩ := hc
    exact decide_eq_true (hdigit d)
  have hnone : consistsOf [] [32] = true := rfl
  simp only [racElement, hbytes, strchr_append List.not_mem_nil, Option.bind_eq_bind,
    Option.bind_some,
    hnone, Bool.not_true, Bool.false_eq_true, if_false, strrchr_append List.not_mem_nil,
    strchr_append hcomma, hdigits]

end

-- What the conversion of a text to a type makes of any destination.
def Reads (convert : (pvargDest : Variant) → (next : Nat) → Exec Changed) (v : Variant) : Prop :=
  ∀ w next, Clearable (some w) → ∃ v' n, convert w next = .ok ⟨sOk, v', n⟩ ∧ v'.value = v.value

section

variable {lib : Libc} {host : Host} {mbstowcs : List UInt8 → Option (List Nat)} {vt : VarType}

theorem convertText_ascii (ha : lib.Ascii mbstowcs) (hh : host.Ample) {cs : List Nat}
    (hcs : ∀ c ∈ cs, 0 < c ∧ c < 128) (hlen : cs.length < 16383) (next : Nat) :
    ∃ addr, convertText host mbstowcs (bytes cs) next = .ok (.ok (some ⟨addr, cs⟩), next + 2) := by
  have hm : mbstowcs (bytes cs) = some cs := ha.mbstowcs fun c hc => (hcs c hc).2
  have hi : i32 (cs.length + 1) = (cs.length + 1 : Nat) := by
    rw [i32, u32_of_lt (by omega), if_pos (by omega)]
  have hpos : 0 < i32 (cs.length + 1) := hi ▸ Int.natCast_pos.mpr (Nat.succ_pos _)
  have hall : (cs ++ [0]).take (i32 (cs.length + 1)).toNat = cs ++ [0] := by
    rw [hi, Int.toNat_natCast]
    exact List.take_of_length_le (by simp)
  have hconv : convertMultiByte2WideChar host mbstowcs (bytes cs) next =
      (some (cs ++ [0]), next + 1) := by
    simp only [convertMultiByte2WideChar, hm, if_pos hpos, Host.alloc_of_ample hh, hall]
  have hw : wcs (cs ++ [0]) = cs := wcs_append_zero (fun c hc => Nat.ne_of_gt (hcs c hc).1) []
  have hs : sysAllocString host (some (cs ++ [0])) (next + 1) =
      .ok (some ⟨next + 1, cs⟩, next + 2) := by
    rw [sysAllocString_short (by rwa [wcslen, hw]), hw, stored_of_ample hh]
  refine ⟨next + 1, ?_⟩
  simp only [convertText, hconv, if_pos (List.mem_append_right cs List.mem_cons_self),
    hs, Exec.ok_bind]
  rfl

theorem ascii_number {val : Nat} (h : Printable vt val) :
    ∀ c ∈ numberText lib vt val, 0 < c ∧ c < 128 :=
  fun c hc => ⟨(literal_number h c hc).pos, (literal_number h c hc).ascii⟩

theorem clearable_empty : Clearable (some (.init false .empty)) := by
  rintro _ ⟨⟩
  exact ⟨[], rfl⟩

theorem clearable_none : Clearable none :=
  fun _ h => by cases h

-- A number is told by its text.
theorem change_number (lib : Libc) (host : Host) {val : Nat} (h : Printable vt val)
    {dest : Option Variant} (hd : Clearable dest)
    (addr next : Nat) : ∃ w, variantChangeType lib host dest
        (.bstr (some ⟨addr, numberText lib vt val⟩)) false vt next = .ok ⟨sOk, .scalar vt w, next⟩ ∧
      toLe (Bcap.wireSize vt) w = toLe (Bcap.wireSize vt) val := by
  obtain ⟨n, hn⟩ := exists_numeral lib host h
  obtain ⟨w, hread, hw⟩ := hn.reread next
  have hne : (Variant.bstr (some ⟨addr, n.text⟩)).vt ≠ VarType.word false vt := by
    have hnum := h.type
    have hcode : (Variant.bstr (some ⟨addr, n.text⟩)).vt = 8 := rfl
    rw [hcode]
    cases vt
    case bstr | other | empty | null | r4 | r8 | date | error | variant => simp [isInteger] at hnum
    all_goals decide
  have hchange : changeValue lib host (.bstr (some ⟨addr, n.text⟩)) false vt next =
      .ok (.ok (.scalar vt w), next) := by
    have htext : wcs n.text ≠ [] := by
      rw [n.wcs_text]
      exact n.text_ne
    rw [changeValue, bstr2variant, if_neg htext, n.wcs_text, hread]
  rw [hn.numberText_eq]
  exact ⟨w, variantChangeType_ne lib host hd hne hchange, hw⟩

theorem elemSize_of_isInteger (h : isInteger vt) : elemSize vt = some (Bcap.wireSize vt) := by
  cases vt
  case bstr | other | empty | null | r4 | r8 | date | error | variant => simp [isInteger] at h
  all_goals rfl

theorem ofWord_of_isInteger (h : isInteger vt) (isArray : Bool) :
    VarType.ofWord (VarType.word isArray vt) = (isArray, vt) ∧ vt ≠ .bstr ∧ vt ≠ .variant := by
  have hk : vt.Known := by
    cases vt
    case other => simp [isInteger] at h
    all_goals trivial
  refine ⟨hk.proper.ofWord_word isArray, ?_, ?_⟩
  all_goals
    rintro rfl
    simp [isInteger] at h

theorem Sized.length_lt {lib : Libc} {v : Variant} {count : Nat} (h : Sized lib v count)
    (hpos : 0 < count) : (racText lib v).length < 4294967295 := by
  rw [Sized] at h
  omega

theorem splitRacStr_intercalate (hh : host.Ample) {l : List (List Nat)} (hne : l ≠ [])
    (hl : ∀ s ∈ l, Segment (bytes s)) (hlen : l.length < 2147483648)
    (hsize : ([44].intercalate l).length < 4294967295) (next : Nat) :
    splitRacStr host (bytes ([44].intercalate l)) next = (some (l.map bytes), next + 1) := by
  have hall : ∀ chPos ∈ l.map bytes, Segment chPos := by
    intro chPos hc
    obtain ⟨s, hs, rfl⟩ := List.mem_map.mp hc
    exact hl s hs
  have hsplit := (splitRacStr_of_malloc (hh next) (by rwa [length_bytes]) (l.map bytes)).mpr
    ⟨by rwa [List.length_map], by simpa using hne, (bytes_intercalate l).symm, hall⟩
  exact Prod.ext hsplit (splitRacStr_next host _ next)

theorem reads_number (ha : lib.Ascii mbstowcs) (hl : lib.Bounded) (hh : host.Ample) {val : Nat}
    (h : Printable vt val) (fuel : Nat) :
    Reads (convertRac lib host mbstowcs (fuel + 1) (Variant.scalar vt val).vt
      (bytes (racText lib (.scalar vt val)))) (.scalar vt val) := by
  intro w next hw
  obtain ⟨blocks, hb⟩ := hw w rfl
  obtain ⟨hword, hbstr, -⟩ := ofWord_of_isInteger h.type false
  obtain ⟨addr, htext⟩ := convertText_ascii ha hh (ascii_number h) (short_number hl h).1 (next + 1)
  obtain ⟨w', hchange, hval⟩ := change_number lib host h clearable_empty addr (next + 3)
  have hsplit : splitRacStr host (bytes (numberText lib vt val)) next =
      (some [bytes (numberText lib vt val)], next + 1) := by
    have hs := splitRacStr_intercalate hh (List.cons_ne_nil (numberText lib vt val) [])
      (List.forall_mem_singleton.mpr (segment_of_literal (literal_number h))) (by simp)
      (by rw [List.intercalate_singleton]; exact (short_number hl h).1.trans (by decide)) next
    rwa [List.intercalate_singleton] at hs
  refine ⟨.scalar vt w', next + 3, ?_, congrArg (Bcap.Value.number vt) hval⟩
  have hvt : (Variant.scalar vt val).vt = VarType.word false vt := rfl
  have hne : (vt == .bstr) = false := beq_false_of_ne hbstr
  simp only [racText, hvt, convertRac, hword, hne, Bool.not_false, Bool.true_and,
    Bool.false_eq_true, if_false, hsplit, hb, htext, hchange, Exec.ok_bind]

end

section

variable {lib : Libc} {host : Host} {mbstowcs : List UInt8 → Option (List Nat)} {vt : VarType}
variable {psa : ArrayHeader}

theorem ascii_text {bstr : Option Bstr} (h : IsAscii bstr) :
    ∀ c ∈ Variant.text bstr, 0 < c ∧ c < 128 :=
  fun c hc => ⟨pos_of_mem_text hc, h.ascii c hc⟩

theorem length_text {bstr : Option Bstr} (h : IsAscii bstr) :
    (Variant.text bstr).length < 16383 := by
  cases bstr
  case none   => decide
  case some b => exact h.short b rfl

theorem text_text (bstr : Option Bstr) (addr : Nat) :
    Variant.text (some ⟨addr, Variant.text bstr⟩) = Variant.text bstr := by
  cases bstr
  case none   => rfl
  case some b => exact wcs_wcs b.chars

-- A string is not split.
theorem reads_bstr (ha : lib.Ascii mbstowcs) (hh : host.Ample) {bstr : Option Bstr}
    (h : IsAscii bstr)
    (fuel : Nat) : Reads (convertRac lib host mbstowcs (fuel + 1) (Variant.bstr bstr).vt
      (bytes (racText lib (.bstr bstr)))) (.bstr bstr) := by
  intro w next hw
  obtain ⟨blocks, hb⟩ := hw w rfl
  obtain ⟨addr, htext⟩ := convertText_ascii ha hh (ascii_text h) (length_text h) (next + 1)
  have hshort : wcslen (Variant.text bstr) < 16383 := by
    have hle : wcslen (Variant.text bstr) ≤ (Variant.text bstr).length :=
      (List.takeWhile_sublist _).length_le
    exact Nat.lt_of_le_of_lt hle (length_text h)
  have hcopy : sysAllocString host (some (Variant.text bstr)) (next + 3) =
      .ok (some ⟨next + 3, wcs (Variant.text bstr)⟩, next + 4) := by
    rw [sysAllocString_short hshort, stored_of_ample hh]
  have hsame : (Variant.bstr (some ⟨addr, Variant.text bstr⟩)).vt = VarType.word false .bstr := rfl
  have hvt : (Variant.bstr bstr).vt = VarType.word false .bstr := rfl
  have hword : VarType.ofWord (VarType.word false .bstr) = (false, .bstr) := rfl
  have hbstr : (VarType.bstr == VarType.bstr) = true := rfl
  refine ⟨.bstr (some ⟨next + 3, wcs (Variant.text bstr)⟩), next + 4, ?_, ?_⟩
  case refine_1 =>
    simp only [racText, hvt, convertRac, hword, hbstr, Bool.not_false, Bool.and_true, if_true,
      Bool.false_eq_true, if_false, Host.alloc_of_ample hh, hb, htext, Exec.ok_bind,
        variantChangeType,
      Variant.init, variantClear, Exec.pure_eq, if_pos hsame, Option.isSome_some, variantCopy,
      Option.map_some, hcopy]
  case refine_2 =>
    have hval : Variant.text (some ⟨next + 3, wcs (Variant.text bstr)⟩) = Variant.text bstr := by
      rw [Variant.text, wcs_wcs]
      exact text_text bstr 0
    exact congrArg Bcap.Value.text hval

-- A new array that has space for all of its elements.
theorem createVector_eq (hh : host.Ample) {sz n : Nat} (hs : elemSize vt = some sz) (hn : 0 < n)
    (hb : n * sz < 4294967296) (next : Nat) :
    ∃ psa next', safeArrayCreateVector host vt 0 n next = (some psa, next') ∧
      psa.cElements = n ∧ psa.cbElements = sz ∧ psa.cap = n := by
  have hcap : vectorCapacity n sz = n := by
    rw [vectorCapacity, u32_of_lt hb]
    exact Nat.mul_div_cancel n (elemSize_pos hs)
  refine ⟨⟨next, some (next + 1), 0, n, sz, vectorCapacity n sz⟩, next + 2, ?_, rfl, rfl, hcap⟩
  simp only [safeArrayCreateVector, Host.alloc_of_ample hh, if_neg (Nat.ne_of_gt hn), hs]

theorem createVector_of_vector (hh : host.Ample) (hv : psa.Vector vt) (hpos : 0 < psa.cElements)
    (next : Nat) : ∃ psa' next', safeArrayCreateVector host vt 0 psa.cElements next =
    (some psa', next') ∧
      psa'.cElements = psa.cElements ∧ psa'.cbElements = psa.cbElements ∧
        psa'.cap = psa.cElements := by
  cases hv
  case empty hc _ _ _      => omega
  case full hs hc _ _ hb => exact createVector_eq hh hs hpos hb next

theorem storeElement_eq {α : Type} {done : List α} (h : done.length < psa.cap) (x : α) :
    storeElement (some psa) done x = .ok (done ++ [x]) :=
  if_pos h

theorem convertNumbers_reads (psa : ArrayHeader) (ha : lib.Ascii mbstowcs) (hl : lib.Bounded)
    (hh : host.Ample)
    (done : List Nat) {vals : List Nat} (hvals : ∀ val ∈ vals, Printable vt val)
    (hcap : done.length + vals.length ≤ psa.cap) (next : Nat) :
    ∃ ws n, convertNumbers lib host mbstowcs vt (some psa)
      ((vals.map (numberText lib vt)).map bytes)
        done next = .ok ⟨sOk, done ++ ws, n⟩ ∧
      ws.flatMap (toLe (Bcap.wireSize vt)) = vals.flatMap (toLe (Bcap.wireSize vt)) := by
  induction vals generalizing done next
  case nil => exact ⟨[], next, by simp [convertNumbers], rfl⟩
  case cons val vals ih =>
    obtain ⟨hval, hvals⟩ := List.forall_mem_cons.mp hvals
    rw [List.length_cons] at hcap
    have hlt : done.length < psa.cap := by omega
    obtain ⟨addr, htext⟩ := convertText_ascii ha hh (ascii_number hval)
      (short_number hl hval).1 next
    obtain ⟨w, hchange, hw⟩ := change_number lib host hval clearable_none addr (next + 2)
    obtain ⟨ws, n, hrest, hws⟩ := ih (done ++ [w]) hvals (by simp; omega) (next + 2)
    refine ⟨w :: ws, n, ?_, ?_⟩
    case refine_1 =>
      simp only [List.map_cons, convertNumbers, htext, hchange, Exec.ok_bind, if_neg not_failed_sOk,
        scalarVal, storeElement_eq hlt, hrest]
      rw [List.append_assoc, List.singleton_append]
    case refine_2 => rw [List.flatMap_cons, List.flatMap_cons, hw, hws]

theorem convertBstrs_reads (psa : ArrayHeader) (ha : lib.Ascii mbstowcs) (hh : host.Ample)
    (done : List (Option Bstr))
    {bs : List (Option Bstr)} (hbs : ∀ b ∈ bs, IsAscii b) (hcap : done.length + bs.length ≤ psa.cap)
    (next : Nat) :
    ∃ cs n, convertBstrs host mbstowcs (some psa) ((bs.map Variant.text).map bytes) done next =
        .ok ⟨sOk, done ++ cs, n⟩ ∧ cs.map Variant.text = bs.map Variant.text := by
  induction bs generalizing done next
  case nil => exact ⟨[], next, by simp [convertBstrs], rfl⟩
  case cons b bs ih =>
    obtain ⟨hb, hbs⟩ := List.forall_mem_cons.mp hbs
    rw [List.length_cons] at hcap
    have hlt : done.length < psa.cap := by omega
    obtain ⟨addr, htext⟩ := convertText_ascii ha hh (ascii_text hb) (length_text hb) next
    obtain ⟨cs, n, hrest, hcs⟩ := ih (done ++ [some ⟨addr, Variant.text b⟩]) hbs
      (by simp; omega) (next + 2)
    refine ⟨some ⟨addr, Variant.text b⟩ :: cs, n, ?_, ?_⟩
    case refine_1 =>
      simp only [List.map_cons, convertBstrs, htext, Exec.ok_bind,
        storeElement_eq hlt, hrest]
      rw [List.append_assoc, List.singleton_append]
    case refine_2 => rw [List.map_cons, List.map_cons, text_text, hcs]

theorem convertVariants_reads (lib : Libc) (psa : ArrayHeader)
    (convert : (vt : Nat) → (chSrc : List UInt8) → (next : Nat) → Exec Changed)
    (done : List Variant) {vs : List Variant} (hvt : ∀ v ∈ vs, v.vt < 65536)
    (hread : ∀ v ∈ vs, ∀ next, ∃ v' n,
    convert v.vt (bytes (racText lib v)) next = .ok ⟨sOk, v', n⟩ ∧
      v'.value = v.value)
    (hcap : done.length + vs.length ≤ psa.cap) (next : Nat) :
    ∃ ws n, convertVariants convert (some psa) ((racItems lib vs).map bytes) done next =
        .ok ⟨sOk, done ++ ws, n⟩ ∧ Variant.values ws = Variant.values vs := by
  induction vs generalizing done next
  case nil => exact ⟨[], next, by simp [racItems, convertVariants], rfl⟩
  case cons v vs ih =>
    obtain ⟨hv, hvt⟩ := List.forall_mem_cons.mp hvt
    obtain ⟨hr, hread⟩ := List.forall_mem_cons.mp hread
    rw [List.length_cons] at hcap
    have hlt : done.length < psa.cap := by omega
    obtain ⟨v', n', hconv, hval⟩ := hr next
    obtain ⟨ws, n, hrest, hws⟩ := ih (done ++ [v']) hvt hread (by simp; omega) n'
    refine ⟨v' :: ws, n, ?_, ?_⟩
    case refine_1 =>
      simp only [racItems, List.map_cons, convertVariants, racElement_item, atoi_decimal hv, hconv,
        Exec.ok_bind, storeElement_eq hlt, if_neg not_failed_sOk, hrest]
      rw [List.append_assoc, List.singleton_append]
    case refine_2 => rw [Variant.values, Variant.values, hval, hws]

end

section

variable {lib : Libc} {host : Host} {mbstowcs : List UInt8 → Option (List Nat)}

theorem vt_lt {v : Variant} (h : Textual v) : v.vt < 65536 := by
  have hk : v.base.Known := by
    cases v
    case scalar vt val =>
      have hnum := h.type
      cases vt
      case other => simp [isInteger] at hnum
      all_goals trivial
    case rawArray vt psa data =>
      have hnum := h.1
      cases vt
      case other => simp [isInteger] at hnum
      all_goals trivial
    case nullArray => exact absurd h (by simp [Textual])
    all_goals trivial
  exact hk.proper.word_lt v.isArray

theorem length_le_intercalate {s : List Nat} {l : List (List Nat)} (h : s ∈ l) :
    s.length ≤ ([44].intercalate l).length := by
  induction l
  case nil => cases h
  case cons t l ih =>
    rw [intercalate_cons, List.length_append, List.length_append]
    cases List.mem_cons.mp h
    case inl he => rw [he]; omega
    case inr hm =>
      have hle := ih hm
      omega

theorem length_lt_item {v : Variant} {vs : List Variant} (h : v ∈ vs) :
    (racText lib v).length < ([44].intercalate (racItems lib vs)).length := by
  have hmem : 40 :: Libc.decimal v.vt ++ 44 :: racText lib v ++ [41] ∈ racItems lib vs := by
    rw [racItems_eq]
    exact List.mem_map_of_mem h
  have hle := length_le_intercalate hmem
  simp only [List.length_append, List.length_cons] at hle
  omega

theorem allTextual_iff (vs : List Variant) : AllTextual vs ↔ ∀ v ∈ vs, Textual v ∧ Closed v := by
  induction vs
  case nil          => simp [AllTextual]
  case cons v vs ih => rw [AllTextual, ih, List.forall_mem_cons]

-- The words in an array are all of its data.
theorem flatMap_words {psa : ArrayHeader} {data : List UInt8}
    (h : data.length = psa.cElements * psa.cbElements) :
    (words psa data).flatMap (toLe psa.cbElements) = data := by
  have htake (n : Nat) (hn : n ≤ psa.cElements) :
      ((List.range n).map fun i => ofLe (data.window (psa.cbElements * i) psa.cbElements)).flatMap
        (toLe psa.cbElements) = data.take (psa.cbElements * n) := by
    induction n
    case zero => rw [Nat.mul_zero, List.take_zero]; rfl
    case succ n ih =>
      have hle : psa.cbElements * (n + 1) ≤ data.length := by
        rw [h, Nat.mul_comm psa.cElements]
        exact Nat.mul_le_mul_left psa.cbElements hn
      have hwin : (data.window (psa.cbElements * n) psa.cbElements).length = psa.cbElements :=
        List.length_window hle
      have hword : toLe psa.cbElements (ofLe (data.window (psa.cbElements * n) psa.cbElements)) =
          data.window (psa.cbElements * n) psa.cbElements := by
        have hle := toLe_ofLe (data.window (psa.cbElements * n) psa.cbElements)
        rwa [hwin] at hle
      rw [List.range_succ, List.map_append, List.flatMap_append, ih (by omega), List.map_singleton,
        List.flatMap_singleton, hword, Nat.mul_succ, List.take_add]
      rfl
  rw [words, htake psa.cElements (Nat.le_refl _), Nat.mul_comm, ← h, List.take_length]

theorem reads_rawArray (ha : lib.Ascii mbstowcs) (hl : lib.Bounded) (hh : host.Ample) {vt : VarType}
    {psa : ArrayHeader} {data : List UInt8} (h : Textual (.rawArray vt psa data))
    (hf : Fits lib (.rawArray vt psa data)) (fuel : Nat) :
    Reads (convertRac lib host mbstowcs (fuel + 1) (Variant.rawArray vt psa data).vt
      (bytes (racText lib (.rawArray vt psa data)))) (.rawArray vt psa data) := by
  obtain ⟨hnum, hv, hpos, hlen, hvals⟩ := h
  intro w next hw
  obtain ⟨blocks, hb⟩ := hw w rfl
  obtain ⟨hword, hbstr, hvariant⟩ := ofWord_of_isInteger hnum true
  have hwords : (words psa data).length = psa.cElements := by
    rw [words, List.length_map, List.length_range]
  have hsplit : splitRacStr host (bytes (racText lib (.rawArray vt psa data))) next =
      (some (((words psa data).map (numberText lib vt)).map bytes), next + 1) := by
    refine splitRacStr_intercalate hh ?_ ?_ ?_ (hf.2.length_lt hpos) next
    case refine_1 => exact List.ne_nil_of_length_pos (by rw [List.length_map]; omega)
    case refine_2 =>
      intro s hs
      obtain ⟨val, hval, rfl⟩ := List.mem_map.mp hs
      exact segment_of_literal (literal_number (hvals val hval))
    case refine_3 => rw [List.length_map, hwords]; exact hf.1
  obtain ⟨psa', n₁, hpsa, hcount, hcb, hcap⟩ := createVector_of_vector hh hv hpos (next + 1)
  obtain ⟨ws, n₂, hread, hws⟩ := convertNumbers_reads psa' ha hl hh [] hvals
    (by rw [hcap, hwords]; simp) n₁
  have hsize : psa.cbElements = Bcap.wireSize vt := by
    cases hv
    case empty hc _ _ _  => omega
    case full hs _ _ _ _ => exact Option.some.inj (hs.symm.trans (elemSize_of_isInteger hnum))
  have hvt : (Variant.rawArray vt psa data).vt = VarType.word true vt := rfl
  refine ⟨.rawArray vt psa' (ws.flatMap (toLe psa'.cbElements)), n₂, ?_, ?_⟩
  case refine_1 =>
    simp only [hvt, convertRac, hword, Bool.not_true, Bool.false_and, Bool.false_eq_true, if_false,
      hsplit, hb, if_true, List.length_map, hwords, hpsa, Exec.ok_bind,
        if_neg hvariant, if_neg hbstr,
      hread, List.nil_append, Option.elim_some]
    rfl
  case refine_2 =>
    have hdata : ws.flatMap (toLe psa'.cbElements) = data := by
      rw [hcb, hsize, hws, ← hsize, flatMap_words hlen]
    simp only [Variant.value, hdata, hcount]

theorem reads_bstrArray (ha : lib.Ascii mbstowcs) (hh : host.Ample)
    {psa : ArrayHeader} {data : List (Option Bstr)} (h : Textual (.bstrArray psa data))
    (hf : Fits lib (.bstrArray psa data)) (fuel : Nat) :
    Reads (convertRac lib host mbstowcs (fuel + 1) (Variant.bstrArray psa data).vt
      (bytes (racText lib (.bstrArray psa data)))) (.bstrArray psa data) := by
  obtain ⟨hv, hpos, hlen, hbs⟩ := h
  intro w next hw
  obtain ⟨blocks, hb⟩ := hw w rfl
  have hc := vector_small hv fun sz hs => Option.some.inj hs ▸ (by decide)
  have hsplit : splitRacStr host (bytes (racText lib (.bstrArray psa data))) next =
      (some ((data.map Variant.text).map bytes), next + 1) := by
    refine splitRacStr_intercalate hh ?_ ?_ ?_ (hf.2.length_lt hpos) next
    case refine_1 => exact List.ne_nil_of_length_pos (by rw [List.length_map]; omega)
    case refine_2 =>
      intro s hs
      obtain ⟨b, hb, rfl⟩ := List.mem_map.mp hs
      exact segment_of_literal (hbs b hb).2
    case refine_3 => rw [List.length_map, hlen]; exact hc
  obtain ⟨psa', n₁, hpsa, hcount, -, hcap⟩ := createVector_of_vector hh hv hpos (next + 1)
  obtain ⟨cs, n₂, hread, hcs⟩ := convertBstrs_reads psa' ha hh []
    (fun b hb => (hbs b hb).1) (by rw [hcap, hlen]; simp) n₁
  have hvt : (Variant.bstrArray psa data).vt = VarType.word true .bstr := rfl
  have hword : VarType.ofWord (VarType.word true .bstr) = (true, .bstr) := rfl
  refine ⟨.bstrArray psa' cs, n₂, ?_, ?_⟩
  case refine_1 =>
    simp only [hvt, convertRac, hword, Bool.not_true, Bool.false_and, Bool.false_eq_true, if_false,
      hsplit, hb, if_true, List.length_map, hlen, hpsa, Exec.ok_bind, reduceCtorEq, hread,
      List.nil_append, Option.elim_some]
    rfl
  case refine_2 => simp only [Variant.value, hcs]

mutual

-- A text is read as the variant that it tells.
theorem reads_racText (ha : lib.Ascii mbstowcs) (hl : lib.Bounded) (hh : host.Ample) :
    (v : Variant) → Textual v → Fits lib v → (fuel : Nat) → (racText lib v).length < fuel →
      Reads (convertRac lib host mbstowcs fuel v.vt (bytes (racText lib v))) v
  | _, _, _, 0, hfuel => absurd hfuel (Nat.not_lt_zero _)
  | .scalar _ _, hv, _, fuel + 1, _ => reads_number ha hl hh hv fuel
  | .bstr _, hv, _, fuel + 1, _ => reads_bstr ha hh hv fuel
  | .nullArray _, hv, _, _, _ => absurd hv (by simp [Textual])
  | .rawArray _ _ _, hv, hf, fuel + 1, _ => reads_rawArray ha hl hh hv hf fuel
  | .bstrArray _ _, hv, hf, fuel + 1, _ => reads_bstrArray ha hh hv hf fuel
  | .variantArray psa data, ⟨hv, hpos, hlen, hvs⟩, hf, fuel + 1, hfuel => by
    intro w next hw
    obtain ⟨blocks, hb⟩ := hw w rfl
    have hc := vector_small hv fun sz hs => Option.some.inj hs ▸ (by decide)
    have hitems : (racItems lib data).length = psa.cElements := (length_racItems data).trans hlen
    have hsplit : splitRacStr host (bytes (racText lib (.variantArray psa data))) next =
        (some ((racItems lib data).map bytes), next + 1) :=
      splitRacStr_intercalate hh (List.ne_nil_of_length_pos (by omega)) (segment_racItems hvs)
        (by rw [hitems]; exact hc) (hf.2.length_lt hpos) next
    obtain ⟨psa', n₁, hpsa, hcount, -, hcap⟩ := createVector_of_vector hh hv hpos (next + 1)
    have hread := reads_items ha hl hh data hvs hf.1 fuel fun v hm =>
      Nat.lt_of_lt_of_le (length_lt_item hm) (Nat.le_of_lt_succ hfuel)
    obtain ⟨ws, n₂, hconv, hws⟩ := convertVariants_reads lib psa'
      (fun vt text next => convertRac lib host mbstowcs fuel vt text (.init false .empty) next)
      [] (fun v hm => vt_lt ((allTextual_iff data).mp hvs v hm).1)
      (fun v hm next => hread v hm (.init false .empty) next clearable_empty)
        (by rw [hcap, hlen]; simp) n₁
    have hvt : (Variant.variantArray psa data).vt = VarType.word true .variant := rfl
    have hword : VarType.ofWord (VarType.word true .variant) = (true, .variant) := rfl
    refine ⟨.variantArray psa' ws, n₂, ?_, ?_⟩
    case refine_1 =>
      simp only [hvt, convertRac, hword, Bool.not_true, Bool.false_and,
        Bool.false_eq_true, if_false,
        hsplit, hb, if_true, List.length_map, hitems, hpsa, Exec.ok_bind, hconv, List.nil_append,
        Option.elim_some]
      rfl
    case refine_2 => simp only [Variant.value, hws]

theorem reads_items (ha : lib.Ascii mbstowcs) (hl : lib.Bounded) (hh : host.Ample) :
    (vs : List Variant) → AllTextual vs → AllFit lib vs → (fuel : Nat) →
      (∀ v ∈ vs, (racText lib v).length < fuel) →
      ∀ v ∈ vs, Reads (convertRac lib host mbstowcs fuel v.vt (bytes (racText lib v))) v
  | [],      _,         _,         _,    _      => by simp
  | v :: vs, ⟨hv, hvs⟩, ⟨hf, hfs⟩, fuel, hfuel => by
    obtain ⟨hlt, hlts⟩ := List.forall_mem_cons.mp hfuel
    exact List.forall_mem_cons.mpr
      ⟨reads_racText ha hl hh v hv.1 hf fuel hlt, reads_items ha hl hh vs hvs hfs fuel hlts⟩

end

end

end Rac
