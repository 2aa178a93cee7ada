import DensoRobot.Common.ChangeVar
import DensoRobot.Common.Theorems.Alike

open HRESULT Bytes Variant

-- The elements of an array.
def Variant.elements : Variant → List Variant
  | .rawArray vt psa data =>
    let size := (elemSize vt).getD 0
    (List.range psa.cElements).map fun i => .scalar vt (ofLe (data.window (size * i) size))
  | .bstrArray psa data    => (List.range psa.cElements).map fun i => .bstr (data.getD i none)
  | .variantArray psa data =>
    (List.range psa.cElements).map fun i => data.getD i (.init false .empty)
  | _ => []

-- What is loaded for an element, if there is memory behind it. A `CY` takes up two elements.
def Variant.loaded : Variant → (i : Nat) → Option Variant
  | .rawArray .cy psa data, i =>
    if 2 * i + 1 < psa.cElements then some (.scalar .cy (ofLe (data.window (16 * i) 16))) else none
  | src,                    i => src.elements[i]?

-- The number that a `CY` stands for is in the lower half of its union.
def Variant.lower : Variant → Variant
  | .scalar .cy val => .scalar .cy (val % 2 ^ 64)
  | v               => v

-- A truth value is stored as `VARIANT_TRUE` or `VARIANT_FALSE`.
def Variant.asStored (vt : VarType) : Variant → Variant
  | .scalar t val => if vt = .bool then .scalar t (truth val) else .scalar t val
  | v             => v

-- The size of the type that the pointer to the destination is cast to.
def VarType.slotSize : VarType → Option Nat
  | .cy => some 16
  | vt  => elemSize vt

namespace Slots

section

variable (lib : Libc) (host : Host) (vt : VarType)

-- What the conversion of a single variant gives.
def convert (v : Variant) (next : Nat) : Exec Changed :=
  if vt = .variant then variantCopy host v next
  else variantChangeType lib host (some (.init false .empty)) v false vt next

def convertible (v : Variant) : Bool :=
  match convert lib host vt v 0 with
  | .ok r    => decide (Succeeded r.hr)
  | .error _ => false

-- `w` is stored for `v`, which lies somewhere in the memory.
def Yields (v w : Variant) : Prop :=
  ∃ next r, convert lib host vt v next = .ok r ∧ Succeeded r.hr ∧ w.bare = (r.dest.asStored vt).bare

-- `w` stands for the conversion of `v`.
def Converts (v w : Variant) : Prop :=
  ∃ w', Yields lib host vt v w' ∧ w.bare.lower = w'.bare.lower

-- The type of a variant is known, and its conversion returns.
structure Deliverable (v : Variant) : Prop where
  supported : v.Supported
  returns   : ∃ r, convert lib host vt v 0 = .ok r

-- The same for what is loaded for an element, if there is memory behind it.
def converts (v : Option Variant) : Bool :=
  v.any (convertible lib host vt)

def Delivers (v : Option Variant) : Prop :=
  ∃ e, v = some e ∧ Deliverable lib host vt e

-- The elements that are looked at until one of them can not be converted or there is no more room.
def reached : (room : Nat) → List (Option Variant) → List (Option Variant)
  | 0,        _       => []
  | _ + 1,    []      => []
  | room + 1, v :: vs => v :: if converts lib host vt v then reached room vs else []

end

section

variable (lib : Libc) {host : Host} (address : Nat → Nat) (owned : Nat → Bool)
    {vt : VarType} {n n' : Nat}

theorem asStored_bare : {v w : Variant} → v.bare = w.bare →
    (v.asStored vt).bare = (w.asStored vt).bare
  | .scalar t val, w, hb => by
    cases w <;> cases hb
    rfl
  | .bstr _, w, hb | .nullArray _, w, hb | .rawArray _ _ _, w, hb | .bstrArray _ _, w, hb
  | .variantArray _ _, w, hb => by
    cases w <;> first | exact hb | (simp [bare] at hb)

-- The bytes that are stored for a value.
def slotBytes (vt : VarType) (w : Variant) : List UInt8 :=
  if vt = .variant then w.image address else w.member address

-- A variant in the destination is cleared before another one is stored in its place.
def clearSlot (vt : VarType) (pos : Nat) (dest : Region) : Exec Unit :=
  if vt = .variant then clearImage owned (dest.read pos 24) else pure ()

variable (host) in
-- A conversion that can only fail.
theorem convert_array (hv : vt.Storable) {e : Variant} (ha : e.isArray = true) (n : Nat) :
    ∃ r, convert lib host vt e n = .ok r ∧ Failed r.hr := by
  have hne : ¬e.vt = VarType.word false vt := by
    have hlt : vt.code < VarType.vtArray := by
      have hsize := hv.size
      cases vt <;> first | (simp [VarType.code, VarType.vtArray]; done) | contradiction
    rw [Variant.vt, ha]
    exact Nat.ne_of_gt (Nat.lt_of_lt_of_le hlt (Nat.le_add_right _ _))
  have hc : changeValue lib host e false vt n = .ok (.error eBadVarType, n) := by
    cases e <;> first | rfl | contradiction
  refine ⟨⟨eBadVarType, .init false .empty, n⟩, ?_, failed_eBadVarType⟩
  simp [convert, hv.variant, variantChangeType, hne, hc, variantClear, init]

theorem convert_unsupported (hv : vt = .variant ∨ vt.Storable) {e : Variant} (hi : e.Intact)
    (hs : ¬e.Supported) {r : Changed} (hr : convert lib host vt e n = .ok r) : Failed r.hr := by
  have hcopy {r : Changed} (hr : variantCopy host e n = .ok r) : Failed r.hr := by
    cases variantCopy_hr hr
    case inl h => exact absurd h.left hs
    case inr h => exact h.right ▸ failed_eBadVarType
  by_cases hvt : vt = .variant
  case pos =>
    rw [convert, if_pos hvt] at hr
    exact hcopy hr
  case neg =>
    have hv := hv.resolve_left hvt
    by_cases ha : e.isArray = true
    case pos =>
      obtain ⟨r', hr', hf⟩ := convert_array lib host hv ha n
      cases hr.symm.trans hr'
      exact hf
    case neg =>
      cases e
      case scalar t val =>
        have hp : ¬t.isPlain = true := hs
        rw [convert, if_neg hvt] at hr
        by_cases hsame : (Variant.scalar t val).vt = VarType.word false vt
        case pos =>
          simp [variantChangeType, hsame, variantClear, init] at hr
          exact hcopy hr
        case neg =>
          have hc : changeValue lib host (.scalar t val) false vt n =
              .ok (.error eBadVarType, n) := by
            cases t <;> first | rfl | exact absurd rfl hp
          simp [variantChangeType, hsame, hc, variantClear, init] at hr
          exact hr ▸ failed_eBadVarType
      case bstr => exact absurd trivial hs
      all_goals exact absurd rfl ha

-- What is stored for a variant is alike wherever it lies.
theorem Yields.unique (hh : host.Ample) (hv : vt = .variant ∨ vt.Storable) {e w w' : Variant}
    (hi : e.Intact) (h : Yields lib host vt e w) (h' : Yields lib host vt e w') :
    w.bare = w'.bare := by
  obtain ⟨n, r, hr, hsucc, hw⟩ := h
  obtain ⟨n', r', hr', hsucc', hw'⟩ := h'
  rw [hw, hw']
  apply asStored_bare
  by_cases hvt : vt = .variant
  case pos =>
    rw [convert, if_pos hvt] at hr hr'
    obtain ⟨s, hs, hb⟩ := variantCopy_copied hh e hi n
    obtain ⟨s', hs', hb'⟩ := variantCopy_copied hh e hi n'
    cases hr.symm.trans hs
    cases hr'.symm.trans hs'
    exact hb.trans hb'.symm
  case neg =>
    have hv := hv.resolve_left hvt
    by_cases ha : e.isArray = true
    case pos =>
      obtain ⟨s, hs, hf⟩ := convert_array lib host hv ha n
      cases hr.symm.trans hs
      exact absurd hsucc hf.not_succeeded
    case neg =>
      have ha := Bool.eq_false_iff.mpr ha
      have hsup : e.Supported := by
        apply Classical.byContradiction
        intro hn
        exact (convert_unsupported lib (.inr hv) hi hn hr).not_succeeded hsucc
      rw [convert, if_neg hvt] at hr hr'
      have halike (n : Nat) : ChangedAlike vt e
          (variantChangeType lib host (some (.init false .empty)) e false vt n)
          (variantChangeType lib host none e false vt 0) :=
        variantChangeType_alike lib hh hv hi hsup ha rfl
      have hn := halike n
      have hn' := halike n'
      rw [hr] at hn
      rw [hr'] at hn'
      obtain ⟨s, hs, hb⟩ := hn.value_of_succeeded hsucc
      obtain ⟨s', hs', hb'⟩ := hn'.value_of_succeeded hsucc'
      cases hs.symm.trans hs'
      exact hb.trans hb'.symm

end
end Slots
