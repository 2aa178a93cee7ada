import DensoRobot.Common.Change
import DensoRobot.Common.Theorems.Copied

open HRESULT Variant

-- A single value of a type, which the member of the union for the type holds.
def Variant.Single (vt : VarType) : Variant → Prop
  | .scalar t _ => t = vt ∧ vt ≠ .bstr
  | .bstr b     => vt = .bstr ∧ ShortBstr b
  | _           => False

-- Two conversions to a type that differ at most in where they store a string.
inductive ValueAlike (vt : VarType) :
    Exec (Except HRESULT Variant × Nat) → Exec (Except HRESULT Variant × Nat) → Prop
  | fault (f : Fault) : ValueAlike vt (.error f) (.error f)
  | failure {hr : HRESULT} {n n' : Nat} :
      Failed hr → ValueAlike vt (.ok (.error hr, n)) (.ok (.error hr, n'))
  | value {v w : Variant} {n n' : Nat} : v.bare = w.bare → v.Single vt → w.Single vt →
      ValueAlike vt (.ok (.ok v, n)) (.ok (.ok w, n'))

-- The types that a value of can be stored.
structure VarType.Storable (vt : VarType) : Prop where
  size    : (elemSize vt).isSome
  variant : vt ≠ .variant

section

variable (lib : Libc) {host : Host} {vt : VarType} {n n' : Nat}

-- A result that involves no memory.
theorem ValueAlike.pure {x : Except HRESULT Variant} (he : ∀ hr, x = .error hr → Failed hr)
    (hv : ∀ v, x = .ok v → v.Single vt) : ValueAlike vt (.ok (x, n)) (.ok (x, n')) := by
  cases x
  case error hr => exact .failure (he hr rfl)
  case ok v     => exact .value rfl (hv v rfl) (hv v rfl)

-- What is allocated for a string is short.
theorem sysAllocStringLen_short {pch : List Nat} {b : Option Bstr}
    (h : sysAllocStringLen host pch (wcslen pch) n = .ok (b, n')) : ShortBstr b := by
  rintro b' ⟨⟩
  simp only [sysAllocStringLen] at h
  split at h
  case h_1 => cases h
  case h_2 =>
    split at h
    case isFalse => cases h
    case isTrue hle =>
      cases h
      rw [Nat.min_self] at hle ⊢
      have hle' : u16 (wcslen pch) < 16383 := by
        rw [bstrCapacity_eq] at hle
        omega
      have hlen : wcslen ((wcs pch).take (u16 (wcslen pch))) ≤ u16 (wcslen pch) :=
        Nat.le_trans (List.takeWhile_sublist _).length_le (List.length_take_le ..)
      exact Nat.lt_of_le_of_lt hlen hle'

theorem sysAllocString_alike (hh : host.Ample) (sz : List Nat) :
    ValueAlike .bstr (do let (b, n) ← sysAllocString host (some sz) n; return (.ok (.bstr b), n))
      (do let (b, n) ← sysAllocString host (some sz) n'; return (.ok (.bstr b), n)) := by
  have hs (n : Nat) : sysAllocString host (some sz) n =
    sysAllocStringLen host sz (wcslen sz) n := rfl
  have hshort (n : Nat) {b : Option Bstr} {m : Nat} :
      sysAllocStringLen host sz (wcslen sz) n = .ok (b, m) → ShortBstr b := sysAllocStringLen_short
  simp only [hs]
  simp only [sysAllocStringLen, Host.alloc_of_ample hh] at hshort ⊢
  split
  case isFalse => exact .fault _
  case isTrue hle =>
    simp only [if_pos hle] at hshort
    exact .value rfl ⟨rfl, hshort n rfl⟩ ⟨rfl, hshort n' rfl⟩

variable (src : VarType) (k : Number)

theorem variant2bstr_alike (hh : host.Ample) :
    ValueAlike .bstr (do let (b, n) ← variant2bstr lib host src k n; return (.ok (.bstr b), n))
      (do let (b, n) ← variant2bstr lib host src k n'; return (.ok (.bstr b), n)) :=
  sysAllocString_alike hh _

theorem subChangeType_alike (hh : host.Ample) (hv : vt.Storable) (chk isArray : Bool) :
    ValueAlike vt (subChangeType lib host src k chk isArray vt n)
      (subChangeType lib host src k chk isArray vt n') := by
  have hstore (dst : VarType) (hd : dst ≠ .bstr) (c : Bool) (val : Nat) {hr : HRESULT}
    (hf : Failed hr) :
      ValueAlike dst (if c then pure (.error hr, n) else pure (.ok (.scalar dst val), n))
        (if c then pure (.error hr, n') else pure (.ok (.scalar dst val), n')) := by
    cases c
    case true  => exact .failure hf
    case false => exact .value rfl ⟨rfl, hd⟩ ⟨rfl, hd⟩
  cases isArray
  case true  => exact .failure failed_eBadVarType
  case false =>
    have hsize := hv.size
    cases vt
    case empty | null | error | other => simp [elemSize] at hsize
    case variant => exact absurd rfl hv.variant
    case bstr => exact variant2bstr_alike lib src k hh
    case r8 | bool => exact .value rfl ⟨rfl, by decide⟩ ⟨rfl, by decide⟩
    all_goals
      refine hstore _ ?_ _ _ ?_ <;> decide

theorem checkScanned_eq (dot : Bool) (next : Nat) (erange : Bool) (x : Except HRESULT α) :
    (∃ hr, Failed hr ∧ checkScanned dot next erange x = .error hr) ∨
      checkScanned dot next erange x = x := by
  simp only [checkScanned]
  split
  case isTrue  => exact .inl ⟨eTypeMismatch, by decide, rfl⟩
  case isFalse =>
    split
    case isTrue  => exact .inl ⟨eOverflow, by decide, rfl⟩
    case isFalse => exact .inr rfl

theorem checkScanned_alike (hv : vt ≠ .bstr) (dot : Bool) (next : Nat) (erange : Bool) (val : Nat) :
    ValueAlike vt (.ok (checkScanned dot next erange (.ok (.scalar vt val)), n))
      (.ok (checkScanned dot next erange (.ok (.scalar vt val)), n')) := by
  cases checkScanned_eq dot next erange (.ok (.scalar vt val) : Except HRESULT Variant)
  case inl h =>
    obtain ⟨hr, hf, h⟩ := h
    rw [h]
    exact .failure hf
  case inr h =>
    rw [h]
    exact .value rfl ⟨rfl, hv⟩ ⟨rfl, hv⟩

theorem unlessNegative_alike {x : Except HRESULT Variant} (bstr : List Nat)
    (h : ValueAlike vt (.ok (x, n)) (.ok (x, n'))) :
    ValueAlike vt (.ok (unlessNegative bstr x, n)) (.ok (unlessNegative bstr x, n')) := by
  cases x
  case error => exact h
  case ok    =>
    simp only [unlessNegative]
    split
    case isTrue  => exact .failure (by decide)
    case isFalse => exact h

theorem rescanInteger_alike (hh : host.Ample) (hv : vt.Storable) (t : IntType) (r : Libc.Scanned) :
    ValueAlike vt (rescanInteger lib host vt t src r n) (rescanInteger lib host vt t src r n') := by
  simp only [rescanInteger]
  cases checkScanned_eq true r.next r.erange (.ok (t.wrap r.val) : Except HRESULT Int)
  case inl h =>
    obtain ⟨hr, hf, h⟩ := h
    simp only [h]
    exact .failure hf
  case inr h =>
    simp only [h]
    exact subChangeType_alike lib _ _ hh hv _ _

theorem bstr2number_alike (hh : host.Ample) (hv : vt.Storable) (bstr : List Nat) :
    ValueAlike vt (bstr2number lib host false vt bstr n)
      (bstr2number lib host false vt bstr n') := by
  have hsize := hv.size
  cases vt
  case empty | null | error | other => simp [elemSize] at hsize
  case variant => exact absurd rfl hv.variant
  case bstr    => exact .failure failed_eBadVarType
  case i2 | bool | ui1 | ui2 => exact rescanInteger_alike lib _ hh hv _ _
  case i4 | i8 | cy | r4 | r8 =>
    exact checkScanned_alike (by decide) _ _ _ _
  case ui4 | ui8 =>
    exact unlessNegative_alike _ (checkScanned_alike (by decide) _ _ _ _)
  case date =>
    simp only [bstr2number, Bool.false_eq_true, if_false, Host.alloc_of_ample hh]
    split
    case h_1 => exact .failure (by decide)
    case h_2 =>
      split
      case h_1 => exact .failure (by decide)
      case h_2 => exact .value rfl ⟨rfl, by decide⟩ ⟨rfl, by decide⟩

-- Conversions of the same variant are alike wherever it is stored.
theorem changeValue_alike (hh : host.Ample) (hv : vt.Storable) : (v w : Variant) → v.bare = w.bare →
    ValueAlike vt (changeValue lib host v false vt n) (changeValue lib host w false vt n')
  | .scalar s val, w, hb => by
    have hsize := hv.size
    cases w <;> cases hb
    cases hs : s.number val
    case some k =>
      have hc (n : Nat) : changeValue lib host (.scalar s val) false vt n =
          subChangeType lib host s k (s ≠ .bool) false vt n := by
        cases s
        case empty | null | error => cases hs
        all_goals simp only [changeValue, hs]
      rw [hc, hc]
      exact subChangeType_alike lib s k hh hv _ _
    case none =>
      cases s
      case empty =>
        cases vt
        case error   => exact .failure (by decide)
        case variant => exact absurd rfl hv.variant
        case bstr    => exact sysAllocString_alike hh []
        all_goals exact .value rfl ⟨rfl, by simp⟩ ⟨rfl, by simp⟩
      case null | error => exact .failure (by decide)
      all_goals
        simp only [changeValue, hs]
        exact .failure failed_eBadVarType
  | .bstr b, w, hb => by
    cases w <;> simp [bare] at hb
    case bstr b' =>
      cases b <;> cases b' <;> simp at hb
      case none.none => exact .fault _
      case some.some b b' =>
        have hw : wcs b.chars = wcs b'.chars := congrArg Bstr.chars hb
        simp only [changeValue, bstr2variant, hw]
        split
        case isTrue  => exact .failure (by decide)
        case isFalse => exact bstr2number_alike lib hh hv _
  | .nullArray _, w, hb => by
    cases w <;> cases hb
    exact .failure failed_eBadVarType
  | .rawArray _ _ _, w, hb => by
    cases w <;> simp [bare] at hb
    exact .failure failed_eBadVarType
  | .bstrArray _ _, w, hb => by
    cases w <;> simp [bare] at hb
    exact .failure failed_eBadVarType
  | .variantArray _ _, w, hb => by
    cases w <;> simp [bare] at hb
    exact .failure failed_eBadVarType

theorem vt_bare (v : Variant) : v.bare.vt = v.vt := by
  cases v <;> rfl

theorem vt_of_bare {v w : Variant} (hb : v.bare = w.bare) : v.vt = w.vt := by
  rw [← vt_bare v, hb, vt_bare]

theorem isArray_of_bare {v w : Variant} (hb : v.bare = w.bare) : v.isArray = w.isArray := by
  cases v <;> cases w <;> simp [bare] at hb <;> rfl

theorem supported_of_bare {v w : Variant} (hb : v.bare = w.bare) : v.Supported → w.Supported := by
  cases v <;> cases w <;> simp [bare] at hb
  case scalar.scalar     => exact hb.left ▸ id
  case rawArray.rawArray => exact hb.left ▸ id
  all_goals exact id

-- What the copy of a variant is alike to.
theorem copied_of_supported {v : Variant} (hs : v.Supported) (ha : v.isArray = false) :
    v.copied = v.bare := by
  cases v
  case scalar vt val => exact if_pos hs
  case bstr          => rfl
  all_goals contradiction

theorem VarType.Storable.known (hv : vt.Storable) : vt.Known := by
  have hsize := hv.size
  cases vt <;> trivial

theorem VarType.known_of_isPlain {t : VarType} (h : t.isPlain = true) : t.Known := by
  cases t <;> trivial

-- A single variant that has the type already.
theorem single_of_vt (hv : vt.Storable) {v : Variant} (hi : v.Intact) (hs : v.Supported)
    (ha : v.isArray = false) (h : v.vt = VarType.word false vt) : v.Single vt := by
  have hcode {t : VarType} (ht : t.Known) (h : t.code = vt.code) : t = vt := by
    rw [← VarType.ofCode_code ht, h, VarType.ofCode_code hv.known]
  cases v
  case scalar t val =>
    have ht := hcode (VarType.known_of_isPlain hs) h
    exact ⟨ht, ht ▸ hi⟩
  case bstr b => exact ⟨(hcode (t := .bstr) trivial h).symm, hi⟩
  all_goals contradiction

-- A conversion in place, as compared to one of a variant that is alike. If it fails, `kept` stays.
inductive ChangedAlike (vt : VarType) (kept : Variant) : Exec Changed → Exec Changed → Prop
  | fault (f : Fault) : ChangedAlike vt kept (.error f) (.error f)
  | failure {r r' : Changed} : Failed r.hr → Failed r'.hr → r'.dest = kept →
      ChangedAlike vt kept (.ok r) (.ok r')
  | value {r r' : Changed} : r.hr = sOk → r'.hr = sOk → r.dest.bare = r'.dest.bare →
      r'.dest.Single vt → ChangedAlike vt kept (.ok r) (.ok r')

theorem ChangedAlike.value_of_succeeded {kept : Variant} {r : Changed} {x : Exec Changed}
    (h : ChangedAlike vt kept (.ok r) x) (hs : Succeeded r.hr) :
    ∃ r', x = .ok r' ∧ r.dest.bare = r'.dest.bare :=
  match h with
  | .failure hf _ _ => absurd hs hf.not_succeeded
  | .value _ _ hb _ => ⟨_, rfl, hb⟩

theorem variantChangeType_alike (hh : host.Ample) (hv : vt.Storable) {v w : Variant} (hi : v.Intact)
    (hs : v.Supported) (ha : v.isArray = false) (hb : v.bare = w.bare) :
    ChangedAlike vt w (variantChangeType lib host (some (.init false .empty)) v false vt n)
      (variantChangeType lib host none w false vt n') := by
  have hvt := vt_of_bare hb
  by_cases hsame : v.vt = VarType.word false vt
  case pos =>
    obtain ⟨r, hr, hc⟩ := variantCopy_copied hh v hi n
    have hhr : r.hr = sOk := by
      cases variantCopy_hr hr
      case inl h => exact h.right
      case inr h => exact absurd hs h.left
    have hx : variantChangeType lib host (some (.init false .empty)) v false vt n = .ok r := by
      simp [variantChangeType, hsame, variantClear, init, hr]
    have hy : variantChangeType lib host none w false vt n' = .ok ⟨sOk, w, n'⟩ := by
      simp [variantChangeType, ← hvt, hsame]
    rw [hx, hy]
    refine .value hhr rfl ?_ ?_
    · rw [hc, copied_of_supported hs ha]
      exact hb
    · exact single_of_vt hv (intact_of_bare v w hb hi) (supported_of_bare hb hs)
        (isArray_of_bare hb ▸ ha) (hvt ▸ hsame)
  case neg =>
    have hsame' : ¬w.vt = VarType.word false vt := hvt ▸ hsame
    have halike : ValueAlike vt (changeValue lib host v false vt n)
        (changeValue lib host w false vt n') := changeValue_alike lib hh hv v w hb
    simp only [variantChangeType, if_neg hsame, if_neg hsame', variantClear, init, Exec.pure_eq,
      Exec.ok_bind]
    revert halike
    generalize changeValue lib host v false vt n = x
    generalize changeValue lib host w false vt n' = y
    intro halike
    cases halike
    case fault f         => exact .fault f
    case failure hf      => exact .failure hf hf rfl
    case value hb hv hw  => exact .value rfl rfl hb hw

end
