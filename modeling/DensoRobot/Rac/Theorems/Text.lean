import DensoRobot.Lib.Brackets
import DensoRobot.Rac.Theorems.Numbers

open HRESULT Bytes Brackets

-- What the C library does with ASCII characters, which one byte stands for each.
structure Libc.Ascii (lib : Libc) (mbstowcs : List UInt8 → Option (List Nat)) : Prop where
  wcstombs : ∀ {chars : List Nat}, (∀ c ∈ chars, c < 128) →
    lib.wcstombs chars = some (chars.map UInt8.ofNat)
  mbstowcs : ∀ {chars : List Nat}, (∀ c ∈ chars, c < 128) →
    mbstowcs (chars.map UInt8.ofNat) = some chars

namespace Rac

-- A character that is neither a bracket nor separates the elements of an array.
structure Literal (c : Nat) : Prop where
  pos      : 0 < c
  ascii    : c < 128
  ne_open  : c ≠ 40
  ne_close : c ≠ 41
  ne_comma : c ≠ 44

-- A short string of ASCII characters.
structure IsAscii (bstrVal : Option Bstr) : Prop where
  short : Variant.ShortBstr bstrVal
  ascii : ∀ c ∈ Variant.text bstrVal, c < 128

-- The bits of the numbers in an array.
def words (psa : ArrayHeader) (data : List UInt8) : List Nat :=
  (List.range psa.cElements).map fun i => ofLe (data.window (psa.cbElements * i) psa.cbElements)

-- A string within an array of variants, whose brackets are balanced.
def Closed : Variant → Prop
  | .bstr bstrVal => Nested 40 41 (fun _ => True) (Variant.text bstrVal)
  | _             => True

-- The variants that have a text which tells them.
mutual

def Textual : Variant → Prop
  | .scalar vt val         => Printable vt val
  | .bstr bstrVal          => IsAscii bstrVal
  | .nullArray _           => False
  | .rawArray vt psa data  =>
    isInteger vt ∧ psa.Vector vt ∧ 0 < psa.cElements ∧
      data.length = psa.cElements * psa.cbElements ∧ ∀ val ∈ words psa data, Printable vt val
  | .bstrArray psa data    =>
    psa.Vector .bstr ∧ 0 < psa.cElements ∧ data.length = psa.cElements ∧
      ∀ b ∈ data, IsAscii b ∧ ∀ c ∈ Variant.text b, Literal c
  | .variantArray psa data =>
    psa.Vector .variant ∧ 0 < psa.cElements ∧ data.length = psa.cElements ∧ AllTextual data

def AllTextual : List Variant → Prop
  | []      => True
  | v :: vs => (Textual v ∧ Closed v) ∧ AllTextual vs

end

section

variable (lib : Libc)

def numberText (vt : VarType) (val : Nat) : List Nat :=
  (characters lib (.scalar vt val)).getD []

-- The text of a variant, which may follow its type.
mutual

def racText : Variant → List Nat
  | .scalar vt val        => numberText lib vt val
  | .bstr bstrVal         => Variant.text bstrVal
  | .nullArray _          => []
  | .rawArray vt psa data => [44].intercalate ((words psa data).map (numberText lib vt))
  | .bstrArray _ data     => [44].intercalate (data.map Variant.text)
  | .variantArray _ data  => [44].intercalate (racItems data)

def racItems : List Variant → List (List Nat)
  | []      => []
  | v :: vs => (40 :: Libc.decimal v.vt ++ 44 :: racText v ++ [41]) :: racItems vs

end

-- The text of an array, where a character more than needed is counted for each element.
def Sized (v : Variant) (count : Nat) : Prop :=
  (racText lib v).length + count < 4294967296

instance (v : Variant) (count : Nat) : Decidable (Sized lib v count) :=
  inferInstanceAs (Decidable (_ < _))

-- The variants whose sizes the code can tell: the number of variants that are copied from an array
-- of numbers is an `int32_t`, and the size of a text is a `uint32_t`.
mutual

def Fits : Variant → Prop
  | .scalar _ _            => True
  | .bstr bstrVal          => bstrVal.isSome
  | .nullArray _           => False
  | .rawArray vt psa data  =>
    psa.cElements < 2147483648 ∧ Sized lib (.rawArray vt psa data) psa.cElements
  | .bstrArray psa data    =>
    (∀ b ∈ data, b.isSome) ∧ Sized lib (.bstrArray psa data) psa.cElements
  | .variantArray psa data =>
    AllFit data ∧ Sized lib (.variantArray psa data) psa.cElements

def AllFit : List Variant → Prop
  | []      => True
  | v :: vs => Fits v ∧ AllFit vs

end

end

def bytes (chars : List Nat) : List UInt8 :=
  chars.map UInt8.ofNat

@[simp]
theorem bytes_append (cs ds : List Nat) : bytes (cs ++ ds) = bytes cs ++ bytes ds :=
  List.map_append

@[simp]
theorem length_bytes (cs : List Nat) : (bytes cs).length = cs.length :=
  List.length_map _

-- Under what condition a conversion leaves a string, and which one.
structure Yields (r : Exec Converted) (text : List UInt8) (fits : Prop) : Prop where
  returns : fits → ∃ n, r = .ok ⟨sOk, .owned (text ++ [0]), n⟩
  fits    : ∀ {c : Converted} {s : List UInt8}, r = .ok c → ¬Failed c.hr →
    c.chDest.string = .ok s → fits

-- What is appended for an element: its segment of the text of the array.
structure Appends (part : Part) (segment : List Nat) (fits : Prop) : Prop where
  text : ∃ chPoint, part.before.flatten ++ chPoint ++ part.after = bytes segment ∧ 0 ∉ chPoint ∧
    part.added + chPoint.length = segment.length + 1 ∧
    ∀ next, Yields (part.convert next) chPoint fits

section

variable {host : Host} {r : Exec Converted} {text : List UInt8} {fits : Prop}

-- The string of a conversion that succeeds.
theorem Yields.string (h : Yields r text fits) (hz : 0 ∉ text) {c : Converted} {s : List UInt8}
    (hr : r = .ok c) (hf : ¬Failed c.hr) (hs : c.chDest.string = .ok s) : s = text := by
  obtain ⟨n, hok⟩ := h.returns (h.fits hr hf hs)
  cases hr.symm.trans hok
  exact (Except.ok.inj ((cString_terminated hz).symm.trans hs)).symm

-- A conversion that fails yields nothing.
theorem yields_of_failed {hr : HRESULT} (h : Failed hr) {chDest : Dest} {n : Nat} (hfits : ¬fits) :
    Yields (.ok ⟨hr, chDest, n⟩) text fits where
  returns hf     := absurd hf hfits
  fits   e hf _ := by
    cases e
    exact absurd h hf

variable {parts : List Part} {part : Part} {b : Building} {segment : List Nat} {frees : Bool}

theorem intercalate_cons (s : List Nat) (l : List (List Nat)) :
    [44].intercalate (s :: l) = s ++ (if l.isEmpty then [] else [44]) ++ [44].intercalate l := by
  cases l
  case nil      => simp [List.intercalate]
  case cons t l => simp [List.intercalate_cons_cons]

-- An element that is converted is appended if the size is not reduced.
theorem join_appends (frees : Bool) (parts : List Part) (hh : host.Ample)
    (ha : Appends part segment fits) (hfits : fits) {done : Nat}
    (hlen : b.len = (b.text.getD []).length + done) (hdone : done < 4294967295) :
    ∃ n, join host frees (part :: parts) b =
      if b.len + segment.length + 1 + (if parts.isEmpty then 0 else 1) < 4294967296 then
        join host frees parts ⟨some
          (b.text.getD [] ++ bytes (segment ++ if parts.isEmpty then [] else [44])),
          b.len + segment.length + 1 + (if parts.isEmpty then 0 else 1), n⟩
      else
        .error .write := by
  obtain ⟨chPoint, htext, hz, hroom, hy⟩ := ha.text
  obtain ⟨n, hr⟩ := (hy b.next).returns hfits
  let comma : List UInt8 := if parts.isEmpty then [] else [44]
  let sep : Nat := if parts.isEmpty then 0 else 1
  have hcomma : comma.length = sep := by
    simp only [comma, sep]
    split <;> rfl
  have hflat : (part.before ++ [chPoint, part.after ++ comma]).flatten =
      bytes segment ++ comma := by
    rw [← htext]
    simp
  have hsum : ((part.before ++ [chPoint, part.after ++ comma]).map List.length).sum =
      segment.length + sep := by
    rw [← List.length_flatten, hflat, List.length_append, length_bytes, hcomma]
  have hsize : b.len + chPoint.length + part.added + sep = b.len + segment.length + 1 + sep := by
    omega
  have hbytes : bytes (segment ++ if parts.isEmpty then [] else [44]) = bytes segment ++ comma := by
    rw [bytes_append]
    simp only [comma]
    split <;> rfl
  have hjoin : join host frees (part :: parts) b =
      (part.before ++ [chPoint, part.after ++ comma]).foldlM
        (strcat (u32 (b.len + segment.length + 1 + sep))) (b.text.getD []) >>= fun text =>
          join host frees parts ⟨some text, u32 (b.len + segment.length + 1 + sep), n + 1⟩ := by
    rw [← hsize]
    simp only [join, hr, Exec.ok_bind, if_neg not_failed_sOk, Dest.string, cString_terminated hz,
      Host.alloc_of_ample hh, comma, sep]
  refine ⟨n + 1, ?_⟩
  rw [hjoin]
  by_cases hl : b.len + segment.length + 1 + sep < 4294967296
  case pos =>
    rw [u32_of_lt hl, if_pos hl, strcats_ok (by omega), Exec.ok_bind, hflat, hbytes]
  case neg =>
    rw [if_neg hl, strcats_error (by simp) (by simp only [u32]; omega), Exec.error_bind]

-- An element that is not converted ends the loop.
theorem join_converted {c : Converted} {s : List UInt8}
    (h : join host frees (part :: parts) b = .ok c)
    (hf : ¬Failed c.hr) (hs : c.chDest.string = .ok s) :
    ∃ c' s', part.convert b.next = .ok c' ∧ ¬Failed c'.hr ∧ c'.chDest.string = .ok s' := by
  rw [join] at h
  obtain ⟨c', hc, h⟩ := ok_of_bind h
  by_cases hf' : Failed c'.hr
  case pos =>
    rw [if_pos hf'] at h
    cases h
    exact absurd hf' hf
  case neg =>
    rw [if_neg hf'] at h
    obtain ⟨s', hs', -⟩ := ok_of_bind h
    exact ⟨c', s', hc, hf', hs'⟩

section

variable {α : Type} {xs : List α} {segments : α → List Nat} {conds : α → Prop}

theorem join_yields_from (hh : host.Ample) (done : Nat)
    (h : List.Forall₂ (fun part x => Appends part (segments x) (conds x)) parts xs)
    (hlen : b.len = (b.text.getD []).length + done) (hlt : b.len < 4294967296)
    (hdone : done + xs.length < 4294967296) (hne : xs = [] → b.text.isSome) :
    Yields (join host frees parts b) (b.text.getD [] ++ bytes ([44].intercalate (xs.map segments)))
      ((∀ x ∈ xs, conds x) ∧
        b.len + ([44].intercalate (xs.map segments)).length + xs.length < 4294967296) := by
  induction h generalizing b done
  case nil =>
    obtain ⟨text, htext⟩ := Option.isSome_iff_exists.mp (hne rfl)
    have hdest : b.chDest = .owned (text ++ [0]) := by simp [Building.chDest, htext]
    constructor
    case returns =>
      intro
      refine ⟨b.next, ?_⟩
      simp only [join, hdest, htext, Option.getD_some]
      simp [bytes, List.intercalate]
    case fits =>
      intro _ _ _ _ _
      exact ⟨by simp, by simpa [List.intercalate] using hlt⟩
  case cons part x parts xs ha has ih =>
    rw [List.length_cons] at hdone
    obtain ⟨chPoint, -, -, -, hy⟩ := ha.text
    let sep : Nat := if parts.isEmpty then 0 else 1
    let segment : List Nat := segments x ++ if parts.isEmpty then [] else [44]
    let rest : List Nat := [44].intercalate (xs.map segments)
    have htext : [44].intercalate ((x :: xs).map segments) = segment ++ rest := by
      rw [List.map_cons, intercalate_cons, List.isEmpty_map, isEmpty_of_forall₂ has]
    have hsegment : segment.length = (segments x).length + sep := by
      simp only [segment, sep, List.length_append]
      split <;> rfl
    have hrest (n : Nat) (hl : b.len + (segments x).length + 1 + sep < 4294967296) :
        Yields (join host frees parts ⟨some (b.text.getD [] ++ bytes segment),
            b.len + (segments x).length + 1 + sep, n⟩)
          (b.text.getD [] ++ bytes segment ++ bytes rest)
          ((∀ x ∈ xs, conds x) ∧
            b.len + (segments x).length + 1 + sep + rest.length + xs.length < 4294967296) :=
      ih (done + 1) (by simp [hsegment]; omega) hl (by omega) (fun _ => rfl)
    have hnext (hx : conds x) := join_appends frees parts hh ha hx hlen (by omega)
    rw [htext, bytes_append, ← List.append_assoc, List.length_append, List.length_cons, hsegment]
    constructor
    case returns =>
      rintro ⟨hconds, hfits⟩
      obtain ⟨n, hjoin⟩ := hnext (hconds x List.mem_cons_self)
      have hl : b.len + (segments x).length + 1 + sep < 4294967296 := by omega
      rw [hjoin, if_pos hl]
      exact (hrest n hl).returns ⟨fun y hy => hconds y (List.mem_cons_of_mem x hy), by omega⟩
    case fits =>
      intro c s hjoin hf hs
      obtain ⟨c', s', hc, hf', hs'⟩ := join_converted hjoin hf hs
      have hx : conds x := (hy b.next).fits hc hf' hs'
      obtain ⟨n, hjoin'⟩ := hnext hx
      by_cases hl : b.len + (segments x).length + 1 + sep < 4294967296
      case neg =>
        rw [if_neg hl, hjoin] at hjoin'
        cases hjoin'
      case pos =>
        rw [if_pos hl] at hjoin'
        obtain ⟨hconds, hfits⟩ := (hrest n hl).fits (hjoin'.symm.trans hjoin) hf hs
        exact ⟨List.forall_mem_cons.mpr ⟨hx, hconds⟩, by omega⟩

-- The segments of all elements are joined iff the size of the text is not reduced.
theorem join_yields (hh : host.Ample) (frees : Bool)
    (h : List.Forall₂ (fun part x => Appends part (segments x) (conds x)) parts xs) (hne : xs ≠ [])
    (hlt : xs.length < 4294967296) (next : Nat) :
    Yields (join host frees parts ⟨none, 0, next⟩) (bytes ([44].intercalate (xs.map segments)))
      ((∀ x ∈ xs, conds x) ∧
        ([44].intercalate (xs.map segments)).length + xs.length < 4294967296) := by
  have hj : Yields (join host frees parts ⟨none, 0, next⟩) _ _ :=
    join_yields_from hh 0 h rfl (by simp) (by omega) (fun he => absurd he hne)
  simpa using hj

end

section

variable {lib : Libc} {mbstowcs : List UInt8 → Option (List Nat)} {vt : VarType} {val next : Nat}

theorem literal_digitText : ∀ d : Fin 10, Literal (Numeral.digitText d) := by
  have h : ∀ d : Fin 10, 0 < Numeral.digitText d ∧ Numeral.digitText d < 128 ∧
      Numeral.digitText d ≠ 40 ∧ Numeral.digitText d ≠ 41 ∧ Numeral.digitText d ≠ 44 := by decide
  intro d
  obtain ⟨hpos, hascii, hopen, hclose, hcomma⟩ := h d
  exact ⟨hpos, hascii, hopen, hclose, hcomma⟩

theorem literal_numeral (n : Numeral) : ∀ c ∈ n.text, Literal c := by
  intro c hc
  cases List.mem_append.mp hc
  case inl hc =>
    have hsign : c = 43 ∨ c = 45 := by
      cases hs : n.sign
      case none   => simp [hs, Numeral.signText] at hc
      case some b => cases b <;> simp_all [Numeral.signText]
    cases hsign
    case inl h => exact h ▸ ⟨by decide, by decide, by decide, by decide, by decide⟩
    case inr h => exact h ▸ ⟨by decide, by decide, by decide, by decide, by decide⟩
  case inr hc =>
    obtain ⟨d, _, rfl⟩ := List.mem_map.mp hc
    exact literal_digitText d

theorem Denotes.numberText_eq {n : Numeral} (h : Denotes lib host vt val n) :
    numberText lib vt val = n.text := by
  rw [numberText, h.printed, Option.getD_some]

theorem characters_number (h : Printable vt val) :
    characters lib (.scalar vt val) = some (numberText lib vt val) := by
  obtain ⟨n, hn⟩ := exists_numeral lib ⟨fun _ => true, id, some⟩ h
  rw [hn.numberText_eq, hn.printed]

theorem literal_number (h : Printable vt val) : ∀ c ∈ numberText lib vt val, Literal c := by
  obtain ⟨n, hn⟩ := exists_numeral lib ⟨fun _ => true, id, some⟩ h
  exact hn.numberText_eq ▸ literal_numeral n

theorem Printable.ne_bstr (h : Printable vt val) : vt ≠ .bstr :=
  fun he => absurd h.type (by simp [he, isInteger])

-- A number is told by less than 16383 characters.
theorem short_number (hl : lib.Bounded) (h : Printable vt val) :
    (numberText lib vt val).length < 16383 ∧
    wcs (numberText lib vt val) = numberText lib vt val := by
  obtain ⟨hshort, hwcs⟩ := characters_short hl (v := .scalar vt val) h.ne_bstr (characters_number h)
  exact ⟨by rwa [wcslen, hwcs] at hshort, hwcs⟩

theorem zero_notMem_bytes {chars : List Nat} (h : ∀ c ∈ chars, 0 < c ∧ c < 128) :
    0 ∉ bytes chars := by
  intro hz
  obtain ⟨c, hc, he⟩ := List.mem_map.mp hz
  obtain ⟨hpos, hascii⟩ := h c hc
  have hz := congrArg UInt8.toNat he
  rw [UInt8.toNat_ofNat', Nat.mod_eq_of_lt (by omega)] at hz
  exact Nat.ne_of_gt hpos hz

theorem pos_of_mem_text {bstrVal : Option Bstr} {c : Nat} (h : c ∈ Variant.text bstrVal) :
    0 < c := by
  cases bstrVal
  case none   => cases h
  case some b =>
    have hc := List.all_eq_true.mp List.all_takeWhile c h
    exact Nat.pos_of_ne_zero (by simpa using hc)

theorem convertString_ascii (ha : lib.Ascii mbstowcs) (hh : host.Ample) {b : Bstr}
    (hb : IsAscii (some b)) (next : Nat) :
    convertString lib host (some b) next =
      ⟨sOk, .owned (bytes (wcs b.chars) ++ [0]), next + 1⟩ := by
  have hw : lib.wcstombs (wcs b.chars) = some (bytes (wcs b.chars)) := ha.wcstombs hb.ascii
  have hshort : (wcs b.chars).length < 16383 := hb.short b rfl
  have hi : i32 ((bytes (wcs b.chars)).length + 1) = ((bytes (wcs b.chars)).length + 1 : Nat) := by
    rw [length_bytes, i32, u32_of_lt (by omega), if_pos (by omega)]
  have hpos : 0 < i32 ((bytes (wcs b.chars)).length + 1) :=
    hi ▸ Int.natCast_pos.mpr (Nat.succ_pos _)
  have hinto : lib.wcstombsInto (wcs b.chars) (i32 ((bytes (wcs b.chars)).length + 1)).toNat =
      bytes (wcs b.chars) ++ [0] := by
    rw [hi, Int.toNat_natCast]
    simp [Libc.wcstombsInto, hw]
  simp only [convertString, convertWideChar2MultiByte, hw, if_pos hpos,
    Host.alloc_of_ample hh, hinto]

-- A string is converted iff there is one.
theorem convertString_yields (ha : lib.Ascii mbstowcs) (hh : host.Ample) {bstrVal : Option Bstr}
    (hb : IsAscii bstrVal) (next : Nat) :
    Yields (.ok (convertString lib host bstrVal next))
      (bytes (Variant.text bstrVal)) bstrVal.isSome := by
  cases bstrVal
  case none   => exact yields_of_failed failed_eOutOfMemory (by simp)
  case some b =>
    constructor
    case returns => exact fun _ => ⟨next + 1, congrArg _ (convertString_ascii ha hh hb next)⟩
    case fits    => exact fun _ _ _ => rfl

theorem isAscii_number (hl : lib.Bounded) (h : Printable vt val) (addr : Nat) :
    IsAscii (some ⟨addr, numberText lib vt val⟩) := by
  obtain ⟨hshort, hwcs⟩ := short_number hl h
  constructor
  case short =>
    rintro _ ⟨⟩
    rwa [wcslen, hwcs]
  case ascii =>
    intro c hc
    rw [Variant.text, hwcs] at hc
    exact (literal_number h c hc).ascii

theorem stored_of_ample (hh : host.Ample) (chars : List Nat) :
    stored host next chars = some ⟨next, chars⟩ :=
  if_pos (hh next)

theorem scalar_yields (hl : lib.Bounded) (ha : lib.Ascii mbstowcs) (hh : host.Ample)
    (h : Printable vt val) (next : Nat) :
    Yields (convertSingle lib host (.scalar vt val) next) (bytes (numberText lib vt val)) True := by
  obtain ⟨-, hwcs⟩ := short_number hl h
  have hconv : convertSingle lib host (.scalar vt val) next =
      .ok (convertString lib host (some ⟨next, numberText lib vt val⟩) (next + 1)) := by
    simp only [convertSingle, change_some hl (v := .scalar vt val) h.ne_bstr (characters_number h),
      Exec.ok_bind, if_neg not_failed_sOk, bstrVal, stored_of_ample hh]
    rfl
  have hy := convertString_yields ha hh (isAscii_number hl h next) (next + 1)
  rw [hconv]
  simpa only [Variant.text, hwcs, Option.isSome_some] using hy

end

section

variable {lib : Libc} {mbstowcs : List UInt8 → Option (List Nat)} {vt : VarType} {next : Nat}
variable {psa : ArrayHeader}

theorem bstr_yields (hl : lib.Bounded) (ha : lib.Ascii mbstowcs) (hh : host.Ample)
    {bstr : Option Bstr} (hb : IsAscii bstr) (next : Nat) :
    Yields (convertSingle lib host (.bstr bstr) next) (bytes (Variant.text bstr)) bstr.isSome := by
  cases bstr
  case none =>
    have hsame : (Variant.bstr none).vt = VarType.word false .bstr := rfl
    have hconv : convertSingle lib host (.bstr none) next = .ok ⟨eOutOfMemory, .null, next⟩ := by
      simp only [convertSingle, variantChangeType, variantCopy, Variant.init,
        variantClear, Exec.pure_eq,
        Exec.ok_bind, if_pos hsame, Option.isSome_some, if_true, Option.map_none, sysAllocString,
        if_neg not_failed_sOk, bstrVal]
      rfl
    exact hconv ▸ yields_of_failed failed_eOutOfMemory (by simp)
  case some b =>
    have hconv : convertSingle lib host (.bstr (some b)) next =
        .ok (convertString lib host (some ⟨next, wcs b.chars⟩) (next + 1)) := by
      simp only [convertSingle, change_some hl (v := .bstr (some b)) hb.short rfl, Exec.ok_bind,
        if_neg not_failed_sOk, bstrVal, stored_of_ample hh]
      rfl
    have hcopy : IsAscii (some ⟨next, wcs b.chars⟩) := by
      constructor
      case short =>
        rintro _ ⟨⟩
        rw [wcslen, wcs_wcs]
        exact hb.short b rfl
      case ascii =>
        rw [Variant.text, wcs_wcs]
        exact hb.ascii
    have hy := convertString_yields ha hh hcopy (next + 1)
    rw [hconv]
    simpa only [Variant.text, wcs_wcs, Option.isSome_some] using hy

theorem bstr_appends (ha : lib.Ascii mbstowcs) (hh : host.Ample) {bstr : Option Bstr}
    (hb : IsAscii bstr) : Appends (bstrPart lib host bstr) (Variant.text bstr) bstr.isSome := by
  refine ⟨bytes (Variant.text bstr), ?_, ?_, ?_, fun next => convertString_yields ha hh hb next⟩
  case refine_1 => simp [bstrPart]
  case refine_2 => exact zero_notMem_bytes fun c hc => ⟨pos_of_mem_text hc, hb.ascii c hc⟩
  case refine_3 =>
    rw [length_bytes]
    exact Nat.add_comm _ _

-- The strings that numbers are changed to in place.
theorem changeElements_numbers (hl : lib.Bounded) (hh : host.Ample) {vals : List Nat}
    (hvals : ∀ val ∈ vals, Printable vt val) (next : Nat) :
    ∃ bstrs, changeElements lib host (vals.map (.scalar vt)) next =
        .ok (.ok bstrs, next + vals.length) ∧
      List.Forall₂ (fun bstr val => ∃ addr, bstr = some ⟨addr, numberText lib vt val⟩)
        bstrs vals := by
  induction vals generalizing next
  case nil => exact ⟨[], rfl, .nil⟩
  case cons val vals ih =>
    obtain ⟨hval, hvals⟩ := List.forall_mem_cons.mp hvals
    obtain ⟨bstrs, hch, hbstrs⟩ := ih hvals (next + 1)
    refine ⟨some ⟨next, numberText lib vt val⟩ :: bstrs, ?_, .cons ⟨next, rfl⟩ hbstrs⟩
    have hnext : next + 1 + vals.length = next + (val :: vals).length := by
      rw [List.length_cons]
      omega
    simp only [List.map_cons, changeElements,
      changeInPlace_some hl hval.ne_bstr (characters_number hval),
      Exec.ok_bind, if_neg not_failed_sOk, hch, hnext, stored_of_ample hh]
    rfl

theorem numbers_append (hl : lib.Bounded) (ha : lib.Ascii mbstowcs) (hh : host.Ample)
    {bstrs : List (Option Bstr)} {vals : List Nat} (hvals : ∀ val ∈ vals, Printable vt val)
    (h : List.Forall₂ (fun bstr val => ∃ addr, bstr = some ⟨addr, numberText lib vt val⟩)
      bstrs vals) :
    List.Forall₂ (fun part val => Appends part (numberText lib vt val) True)
      (bstrs.map (bstrPart lib host)) vals := by
  induction h
  case nil => exact .nil
  case cons hb _ ih =>
    obtain ⟨hval, hvals⟩ := List.forall_mem_cons.mp hvals
    obtain ⟨addr, rfl⟩ := hb
    have happ := bstr_appends ha hh (isAscii_number hl hval addr)
    rw [Variant.text, (short_number hl hval).2, Option.isSome_some, eq_self] at happ
    exact .cons happ (ih hvals)

theorem count_neg (hv : psa.Vector vt) :
    i32 (Variant.count psa) < 0 ↔ ¬psa.cElements < 2147483648 := by
  have hlt := vector_lt hv
  rw [Variant.count_eq hlt, i32, u32_of_lt hlt]
  split
  case isTrue h  => omega
  case isFalse h => omega

theorem raw_yields (hl : lib.Bounded) (ha : lib.Ascii mbstowcs) (hh : host.Ample)
    {data : List UInt8}
    (hv : psa.Vector vt) (hpos : 0 < psa.cElements)
    (hvals : ∀ val ∈ words psa data, Printable vt val)
    (next : Nat) :
    Yields (convertRaw lib host vt psa data next) (bytes (racText lib (.rawArray vt psa data)))
      (Fits lib (.rawArray vt psa data)) := by
  have hlen : (words psa data).length = psa.cElements := by
    rw [words, List.length_map, List.length_range]
  by_cases hc : psa.cElements < 2147483648
  case neg =>
    have hneg : i32 (Variant.count psa) < 0 ∨ host.malloc next = false :=
      .inl (count_neg hv |>.mpr hc)
    rw [convertRaw, if_pos hneg]
    exact yields_of_failed failed_eOutOfMemory fun h => hc h.1
  case pos =>
    have hserved : ¬(i32 (Variant.count psa) < 0 ∨ host.malloc next = false) := by
      rw [count_neg hv, hh next]
      simp [hc]
    have helements : ((List.range psa.cElements).map fun i =>
        Variant.scalar vt (ofLe (data.window (psa.cbElements * i) psa.cbElements))) =
        (words psa data).map (.scalar vt) := by
      rw [words, List.map_map]
      rfl
    obtain ⟨bstrs, hch, hbstrs⟩ := changeElements_numbers hl hh hvals (next + 1)
    have hconv : convertRaw lib host vt psa data next =
        join host false (bstrs.map (bstrPart lib host)) ⟨none, 0, next + 1 + psa.cElements⟩ := by
      simp only [convertRaw, if_neg hserved, withCount_eq hv hc, helements, hch, Exec.ok_bind, hlen]
    have hne : words psa data ≠ [] := List.ne_nil_of_length_pos (by omega)
    have hy := join_yields hh false (numbers_append hl ha hh hvals hbstrs) hne
      (hlen ▸ vector_lt hv) (next + 1 + psa.cElements)
    rw [hconv]
    simpa [Fits, Sized, racText, hc, hlen] using hy

end

section

variable {lib : Libc} {mbstowcs : List UInt8 → Option (List Nat)} {next : Nat} {psa : ArrayHeader}

theorem forall_mem_intercalate {p : Nat → Prop} (hp : p 44) {l : List (List Nat)}
    (h : ∀ s ∈ l, ∀ c ∈ s, p c) : ∀ c ∈ [44].intercalate l, p c := by
  induction l
  case nil => simp [List.intercalate]
  case cons s l ih =>
    obtain ⟨hs, hl⟩ := List.forall_mem_cons.mp h
    rw [intercalate_cons, List.forall_mem_append, List.forall_mem_append]
    refine ⟨⟨hs, ?_⟩, ih hl⟩
    split
    case isTrue  => simp
    case isFalse => exact List.forall_mem_singleton.mpr hp

theorem literal_decimal (z : Int) : ∀ c ∈ Libc.decimal z, Literal c := by
  obtain ⟨n, hn, -⟩ := Numeral.exists_decimal z
  exact hn ▸ literal_numeral n

mutual

theorem ascii_racText : (v : Variant) → Textual v → ∀ c ∈ racText lib v, 0 < c ∧ c < 128
  | .scalar _ _, hv => fun c hc =>
    have hlit : Literal c := literal_number hv c hc
    ⟨hlit.pos, hlit.ascii⟩
  | .bstr _, hv => fun c hc => ⟨pos_of_mem_text hc, hv.ascii c hc⟩
  | .nullArray _, hv => absurd hv (by simp [Textual])
  | .rawArray vt psa data, ⟨_, _, _, _, hvals⟩ => by
    refine forall_mem_intercalate (by decide) fun s hs c hc => ?_
    obtain ⟨val, hval, rfl⟩ := List.mem_map.mp hs
    have hlit := literal_number (hvals val hval) c hc
    exact ⟨hlit.pos, hlit.ascii⟩
  | .bstrArray psa data, ⟨_, _, _, hbs⟩ => by
    refine forall_mem_intercalate (by decide) fun s hs c hc => ?_
    obtain ⟨b, hb, rfl⟩ := List.mem_map.mp hs
    exact ⟨pos_of_mem_text hc, (hbs b hb).1.ascii c hc⟩
  | .variantArray _ data, ⟨_, _, _, hvs⟩ =>
      forall_mem_intercalate (by decide) (ascii_racItems data hvs)

theorem ascii_racItems : (vs : List Variant) → AllTextual vs →
    ∀ s ∈ racItems lib vs, ∀ c ∈ s, 0 < c ∧ c < 128
  | [],      _         => by simp [racItems]
  | v :: vs, ⟨hv, hvs⟩ => by
    have htext := ascii_racText v hv.1
    have hdec : ∀ c ∈ Libc.decimal v.vt, 0 < c ∧ c < 128 := fun c hc =>
      ⟨(literal_decimal v.vt c hc).pos, (literal_decimal v.vt c hc).ascii⟩
    refine List.forall_mem_cons.mpr ⟨?_, ascii_racItems vs hvs⟩
    rw [List.forall_mem_append, List.cons_append, List.forall_mem_cons, List.forall_mem_append,
      List.forall_mem_cons]
    exact ⟨⟨by decide, hdec, by decide, htext⟩, by decide⟩

end

theorem variant_appends {v : Variant} (hv : Textual v)
    {convert : Nat → Exec Converted} {fits : Prop}
    (h : ∀ next, Yields (convert next) (bytes (racText lib v)) fits) :
    Appends (variantPart v.vt convert)
      (40 :: Libc.decimal v.vt ++ 44 :: racText lib v ++ [41]) fits := by
  refine ⟨bytes (racText lib v), ?_, zero_notMem_bytes (ascii_racText v hv), ?_, h⟩
  case refine_1 => simp [variantPart, bytes, sprintf]
  case refine_2 =>
    simp only [variantPart, sprintf, bytes, List.length_append, List.length_map, List.length_cons,
      List.length_nil]
    omega

theorem length_racItems (vs : List Variant) : (racItems lib vs).length = vs.length := by
  induction vs
  case nil          => rfl
  case cons v vs ih => exact congrArg Nat.succ ih

theorem racItems_eq (lib : Libc) (vs : List Variant) :
    racItems lib vs = vs.map fun v => 40 :: Libc.decimal v.vt ++ 44 :: racText lib v ++ [41] := by
  induction vs
  case nil          => rfl
  case cons v vs ih => rw [racItems, ih, List.map_cons]

theorem allFit_iff (vs : List Variant) : AllFit lib vs ↔ ∀ v ∈ vs, Fits lib v := by
  induction vs
  case nil          => simp [AllFit]
  case cons v vs ih => rw [AllFit, ih, List.forall_mem_cons]

theorem bstrs_append (ha : lib.Ascii mbstowcs) (hh : host.Ample) {data : List (Option Bstr)}
    (hbs : ∀ b ∈ data, IsAscii b) :
    List.Forall₂ (fun part b => Appends part (Variant.text b) (b.isSome = true))
      (data.map (bstrPart lib host)) data := by
  induction data
  case nil => exact .nil
  case cons b data ih =>
    obtain ⟨hb, hbs⟩ := List.forall_mem_cons.mp hbs
    exact .cons (bstr_appends ha hh hb) (ih hbs)

theorem bstrArray_yields (ha : lib.Ascii mbstowcs) (hh : host.Ample) {data : List (Option Bstr)}
    (h : Textual (.bstrArray psa data)) (next : Nat) :
    Yields (convertVariant2RacStr lib host (.bstrArray psa data) next)
      (bytes (racText lib (.bstrArray psa data))) (Fits lib (.bstrArray psa data)) := by
  obtain ⟨hv, hpos, hlen, hbs⟩ := h
  have hc := vector_small hv fun sz hs => Option.some.inj hs ▸ (by decide)
  have hdata : ((List.range psa.cElements).map fun i => data.getD i none) = data := by
    apply List.ext_getElem (by simp [hlen])
    intro i _ hi
    simp [List.getElem?_eq_getElem hi]
  have hconv : convertVariant2RacStr lib host (.bstrArray psa data) next =
      join host false (data.map (bstrPart lib host)) ⟨none, 0, next⟩ := by
    simp only [convertVariant2RacStr, withCount_eq hv hc, hdata]
  have hne : data ≠ [] := List.ne_nil_of_length_pos (by omega)
  have hy := join_yields hh false (bstrs_append ha hh fun b hb => (hbs b hb).1) hne
    (hlen ▸ vector_lt hv) next
  rw [hconv]
  simpa only [Fits, Sized, racText, hlen] using hy

mutual

-- A variant that has a text is converted to it iff it fits.
theorem convert_yields (hl : lib.Bounded) (ha : lib.Ascii mbstowcs) (hh : host.Ample) :
    (v : Variant) → Textual v → ∀ next,
      Yields (convertVariant2RacStr lib host v next) (bytes (racText lib v)) (Fits lib v)
  | .scalar vt val, hv, next => by
    simpa only [convertVariant2RacStr, racText, Fits] using scalar_yields hl ha hh hv next
  | .bstr bstrVal, hv, next => by
    simpa only [convertVariant2RacStr, racText, Fits] using bstr_yields hl ha hh hv next
  | .nullArray _, hv, _ => absurd hv (by simp [Textual])
  | .rawArray vt psa data, hv, next => by
    simpa only [convertVariant2RacStr] using raw_yields hl ha hh hv.2.1 hv.2.2.1 hv.2.2.2.2 next
  | .bstrArray _ _, hv, next => bstrArray_yields ha hh hv next
  | .variantArray psa data, ⟨hv, hpos, hlen, hvs⟩, next => by
    have hc := vector_small hv fun sz hs => Option.some.inj hs ▸ (by decide)
    have hparts : (variantParts lib host data).length = psa.cElements :=
      (length_variantParts lib host data).trans hlen
    have hconv : convertVariant2RacStr lib host (.variantArray psa data) next =
        join host true (variantParts lib host data) ⟨none, 0, next⟩ := by
      simp only [convertVariant2RacStr, withCount_eq hv hc, hparts, Nat.sub_self,
        List.replicate_zero, List.append_nil, List.take_of_length_le (Nat.le_of_eq hparts)]
    have hne : data ≠ [] := List.ne_nil_of_length_pos (by omega)
    have hy :=
      join_yields hh true (variants_append hl ha hh data hvs) hne (hlen ▸ vector_lt hv) next
    rw [hconv]
    simpa only [Fits, Sized, racText, allFit_iff, racItems_eq, hlen] using hy

theorem variants_append (hl : lib.Bounded) (ha : lib.Ascii mbstowcs) (hh : host.Ample) :
    (vs : List Variant) → AllTextual vs →
      List.Forall₂ (fun part v => Appends part
        (40 :: Libc.decimal v.vt ++ 44 :: racText lib v ++ [41]) (Fits lib v))
        (variantParts lib host vs) vs
  | [],      _         => .nil
  | v :: vs, ⟨hv, hvs⟩ =>
    .cons (variant_appends hv.1 (convert_yields hl ha hh v hv.1)) (variants_append hl ha hh vs hvs)

end

end

end
end Rac
