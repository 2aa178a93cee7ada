import DensoRobot.Common.Copy

open HRESULT

-- A new string, if there is memory for it.
def stored (host : Host) (next : Nat) (chars : List Nat) : Option Bstr :=
  if host.malloc next then some ⟨next, chars⟩ else none

theorem sysAllocStringLen_eq {host : Host} {pch : List Nat} {cch : Nat} (hc : cch < 16383)
    (hl : cch ≤ wcslen pch) (hp : wcslen pch < 65536) (next : Nat) :
    sysAllocStringLen host pch cch next = .ok
      (stored host next ((wcs pch).take cch), next + 1) := by
  have hcch : u16 cch = cch := u16_of_lt (by omega)
  have hpch : u16 (wcslen pch) = wcslen pch := u16_of_lt hp
  have hcap : cch ≤ bstrCapacity cch := by
    rw [bstrCapacity_eq]
    omega
  cases hm : host.malloc next
  case false => simp [sysAllocStringLen, stored, Host.alloc, hm]
  case true  =>
    simp [sysAllocStringLen, stored, Host.alloc, hm, hcch, hpch, Nat.min_eq_left hl, hcap]

theorem sysAllocString_short {host : Host} {chars : List Nat} (h : wcslen chars < 16383)
    (next : Nat) :
    sysAllocString host (some chars) next = .ok (stored host next (wcs chars), next + 1) := by
  rw [sysAllocString, sysAllocStringLen_eq h (Nat.le_refl _) (by omega), wcslen, List.take_length]

-- What is held, irrespective of the blocks of memory that it is held in.

def Bstr.bare (b : Bstr) : Bstr where
  addr  := 0
  chars := wcs b.chars

def ArrayHeader.bare (psa : ArrayHeader) : ArrayHeader :=
  { psa with addr := 0, pvData := psa.pvData.map fun _ => 0 }

-- A vector whose elements are all in its memory, as `SafeArrayCreateVector` creates it.
inductive ArrayHeader.Vector (vt : VarType) (psa : ArrayHeader) : Prop
  | empty (count : psa.cElements = 0) (data : psa.pvData = none) (size : psa.cbElements = 0)
      (cap : psa.cap = 0)
  | full (size : elemSize vt = some psa.cbElements) (count : 0 < psa.cElements)
      (data : psa.pvData.isSome) (cap : psa.cap = psa.cElements)
      (bytes : psa.cElements * psa.cbElements < 4294967296)

namespace Variant

mutual

def bare : Variant → Variant
  | scalar vt val         => scalar vt val
  | bstr bstrVal          => bstr (bstrVal.map Bstr.bare)
  | nullArray vt          => nullArray vt
  | rawArray vt psa data  => rawArray vt psa.bare data
  | bstrArray psa data    => bstrArray psa.bare (data.map (·.map Bstr.bare))
  | variantArray psa data => variantArray psa.bare (bares data)

def bares : List Variant → List Variant
  | []      => []
  | v :: vs => v.bare :: bares vs

end

def bstrBlocks (bstrVal : Option Bstr) : List Nat :=
  bstrVal.toList.map Bstr.addr

-- The blocks of memory that a variant is stored in.
mutual

def blocks : Variant → List Nat
  | scalar _ _ | nullArray _ => []
  | bstr bstrVal             => bstrBlocks bstrVal
  | rawArray _ psa _         => psa.addr :: psa.pvData.toList
  | bstrArray psa data       => psa.addr :: psa.pvData.toList ++ data.flatMap bstrBlocks
  | variantArray psa data    => psa.addr :: psa.pvData.toList ++ allBlocks data

def allBlocks : List Variant → List Nat
  | []      => []
  | v :: vs => v.blocks ++ allBlocks vs

end

-- A string that is shorter than 16383 characters.
def ShortBstr (bstrVal : Option Bstr) : Prop :=
  ∀ b ∈ bstrVal, wcslen b.chars < 16383

-- The variants that can be there: strings and arrays have their own types, and the elements of the
-- arrays are in their memory.
mutual

def Intact : Variant → Prop
  | scalar vt _           => vt ≠ .bstr
  | bstr bstrVal          => ShortBstr bstrVal
  | nullArray _           => False
  | rawArray vt psa data  =>
    vt ≠ .bstr ∧ vt ≠ .variant ∧ psa.Vector vt ∧ data.length ≤ psa.cElements * psa.cbElements
  | bstrArray psa data    =>
    psa.Vector .bstr ∧ data.length ≤ psa.cElements ∧ ∀ b ∈ data, ShortBstr b
  | variantArray psa data =>
    psa.Vector .variant ∧ data.length ≤ psa.cElements ∧ AllIntact data

def AllIntact : List Variant → Prop
  | []      => True
  | v :: vs => v.Intact ∧ AllIntact vs

end

-- Whether `VariantCopy` knows the type of a variant, apart from the elements of its array.
def Supported : Variant → Prop
  | scalar vt _                   => vt.isPlain
  | rawArray vt _ _               => vt.isBlock
  | nullArray _                   => False
  | bstr _ | bstrArray _ _ | variantArray _ _ => True

mutual

def DeepSupported : Variant → Prop
  | variantArray _ data => AllSupported data
  | v                   => v.Supported

def AllSupported : List Variant → Prop
  | []      => True
  | v :: vs => v.DeepSupported ∧ AllSupported vs

end

def arrayRequests (psa : ArrayHeader) : Nat :=
  if psa.cElements = 0 then 1 else 2

def bstrRequests (bstrVal : Option Bstr) : Nat :=
  if bstrVal.isSome then 1 else 0

-- How often memory is asked for in order to copy a variant.
mutual

def requests : Variant → Nat
  | scalar _ _ | nullArray _ => 0
  | bstr bstrVal             => bstrRequests bstrVal
  | rawArray _ psa _         => arrayRequests psa
  | bstrArray psa data       => arrayRequests psa + (data.map bstrRequests).sum
  | variantArray psa data    => arrayRequests psa + allRequests data

def allRequests : List Variant → Nat
  | []      => 0
  | v :: vs => v.requests + allRequests vs

end

end Variant

-- The next `n` requests for memory are served.
def Host.Serves (host : Host) (next n : Nat) : Prop :=
  ∀ i < n, host.malloc (next + i) = true

open Variant

section

variable {host : Host} {next m n : Nat}

theorem serves_zero : host.Serves next 0 :=
  fun _ h => by contradiction

theorem serves_add : host.Serves next (m + n) ↔ host.Serves next m ∧ host.Serves (next + m) n := by
  constructor
  case mp =>
    refine fun h => ⟨fun i hi => h i (Nat.lt_add_right n hi), fun i hi => ?_⟩
    rw [Nat.add_assoc]
    exact h _ (Nat.add_lt_add_left hi m)
  case mpr =>
    intro h i hi
    by_cases hm : i < m
    case pos => exact h.left i hm
    case neg =>
      have := h.right (i - m) (by omega)
      rwa [Nat.add_assoc, Nat.add_sub_cancel' (Nat.le_of_not_lt hm)] at this

theorem serves_one : host.Serves next 1 ↔ host.malloc next = true :=
  ⟨fun h => h 0 (by decide), fun h i hi => by rwa [Nat.lt_one_iff.mp hi]⟩

end

section

variable (host : Host)

-- A string is copied if there is memory for it, and else it is lost.
theorem sysAllocString_copies {b : Option Bstr} (hb : ShortBstr b) (next : Nat) :
    ∃ b', sysAllocString host (b.map Bstr.chars) next = .ok (b', next + bstrRequests b) ∧
      (b'.map Bstr.bare = b.map Bstr.bare ↔ host.Serves next (bstrRequests b)) ∧
      ∀ a ∈ bstrBlocks b', next ≤ a := by
  cases b
  case none => exact ⟨none, rfl, iff_of_true rfl serves_zero, fun _ h => by contradiction⟩
  case some b =>
    have hl := hb b rfl
    have hreq : bstrRequests (some b) = 1 := rfl
    rw [hreq, serves_one]
    cases hm : host.malloc next
    case false =>
      refine ⟨none, ?_, by simp, fun _ h => by contradiction⟩
      simp [sysAllocString, sysAllocStringLen, Host.alloc, hm]
    case true =>
      refine ⟨some ⟨next, wcs b.chars⟩, ?_, iff_of_true ?_ rfl, fun a ha => ?_⟩
      · rw [Option.map_some, sysAllocString_short hl, stored, if_pos hm]
      · simp [Bstr.bare, wcs_wcs]
      · rw [List.mem_singleton.mp ha]

theorem bstrsCopy_copies {bs : List (Option Bstr)} (hb : ∀ b ∈ bs, ShortBstr b) (next : Nat) :
    ∃ bs', bstrsCopy host bs next = .ok (bs', next + (bs.map bstrRequests).sum) ∧
      (bs'.map (·.map Bstr.bare) = bs.map (·.map Bstr.bare) ↔
        host.Serves next (bs.map bstrRequests).sum) ∧
      ∀ a ∈ bs'.flatMap bstrBlocks, next ≤ a := by
  induction bs generalizing next
  case nil => exact ⟨[], rfl, iff_of_true rfl serves_zero, fun _ h => by contradiction⟩
  case cons b bs ih =>
    have ⟨hb, hbs⟩ := List.forall_mem_cons.mp hb
    obtain ⟨b', hc, he, hf⟩ := sysAllocString_copies host hb next
    obtain ⟨bs', hcs, hes, hfs⟩ := ih hbs (next + bstrRequests b)
    refine ⟨b' :: bs', ?_, ?_, ?_⟩
    · simp [bstrsCopy, hc, hcs, Nat.add_assoc]
    · rw [List.map_cons, List.map_cons, List.cons_eq_cons, he, hes, List.map_cons, List.sum_cons,
        serves_add]
    · intro a ha
      rw [List.flatMap_cons] at ha
      cases List.mem_append.mp ha
      case inl ha => exact hf a ha
      case inr ha => exact Nat.le_trans (Nat.le_add_right _ _) (hfs a ha)

theorem elemSize_pos {vt : VarType} {n : Nat} (h : elemSize vt = some n) : 0 < n := by
  cases vt <;> cases h <;> decide

-- A vector that looks the same is created if there is memory for it.
theorem createVector_copies {vt : VarType} {psa : ArrayHeader} (hv : psa.Vector vt) (next : Nat) :
    (host.Serves next (arrayRequests psa) →
      ∃ psa', safeArrayCreateVector host vt psa.lLbound psa.cElements next =
          (some psa', next + arrayRequests psa) ∧
        psa'.bare = psa.bare ∧ ∀ a ∈ psa'.addr :: psa'.pvData.toList, next ≤ a) ∧
    (¬host.Serves next (arrayRequests psa) →
      ∃ next', safeArrayCreateVector host vt psa.lLbound psa.cElements next = (none, next')) := by
  cases hv
  case empty hc hd hs hcap =>
    rw [arrayRequests, if_pos hc, serves_one]
    cases hm : host.malloc next
    case false => simp [safeArrayCreateVector, Host.alloc, hm]
    case true  =>
      refine ⟨fun _ => ⟨⟨next, none, psa.lLbound, 0, 0, 0⟩, ?_, ?_, ?_⟩, fun h => absurd rfl h⟩
      · simp [safeArrayCreateVector, Host.alloc, hm, hc]
      · simp [ArrayHeader.bare, hc, hd, hs, hcap]
      · simp
  case full hs hc hd hcap hb =>
    have hne := Nat.ne_of_gt hc
    have hsz := elemSize_pos hs
    have hvc : vectorCapacity psa.cElements psa.cbElements = psa.cap := by
      rw [vectorCapacity, u32_of_lt hb, Nat.mul_div_cancel _ hsz, hcap]
    rw [arrayRequests, if_neg hne, serves_add (m := 1) (n := 1), serves_one, serves_one]
    cases hm : host.malloc next
    case false => simp [safeArrayCreateVector, Host.alloc, hm]
    case true =>
      cases hm' : host.malloc (next + 1)
      case false => simp [safeArrayCreateVector, Host.alloc, hm, hm', hne, hs]
      case true  =>
        refine ⟨fun _ =>
          ⟨⟨next, some (next + 1), psa.lLbound, psa.cElements, psa.cbElements, psa.cap⟩,
          ?_, ?_, ?_⟩, fun h => absurd ⟨rfl, rfl⟩ h⟩
        · simp [safeArrayCreateVector, Host.alloc, hm, hm', hne, hs, hvc]
        · obtain ⟨d, hd⟩ := Option.isSome_iff_exists.mp hd
          simp [ArrayHeader.bare, hd]
        · simp

variable {host : Host} {vt : VarType} {psa : ArrayHeader} {next : Nat}

theorem sizes_of_bare {psa' : ArrayHeader} (hb : psa'.bare = psa.bare) :
    psa'.cap = psa.cap ∧ psa'.cElements = psa.cElements ∧ psa'.cbElements = psa.cbElements := by
  simp only [ArrayHeader.bare, ArrayHeader.mk.injEq] at hb
  exact ⟨hb.right.right.right.right.right, hb.right.right.right.left,
    hb.right.right.right.right.left⟩

theorem vector_inMemory {psa' : ArrayHeader} (hv : psa.Vector vt) (hb : psa'.bare = psa.bare) :
    ¬psa.cap < psa.cElements ∧ ¬psa'.cap < psa'.cElements := by
  obtain ⟨hc, hn, _⟩ := sizes_of_bare hb
  rw [hc, hn]
  cases hv
  case empty hc _ _ hcap => simp [hc, hcap]
  case full hcap _       => simp [hcap]

theorem copyElements_served (hv : psa.Vector vt) (hs : host.Serves next (arrayRequests psa))
    (copy : ArrayHeader → Nat → Exec (Variant × Nat)) :
    ∃ psa', psa'.bare = psa.bare ∧ (∀ a ∈ psa'.addr :: psa'.pvData.toList, next ≤ a) ∧
      copyElements host vt psa next copy = do
        let r ← copy psa' (next + arrayRequests psa)
        return ⟨sOk, r.1, r.2⟩ := by
  obtain ⟨psa', hc, hb, hf⟩ := (createVector_copies host hv next).left hs
  have hm := vector_inMemory hv hb
  refine ⟨psa', hb, hf, ?_⟩
  rw [copyElements, hc]
  simp only [if_neg hm.left, if_neg hm.right]

theorem copyElements_unserved (hv : psa.Vector vt) (hs : ¬host.Serves next (arrayRequests psa))
    (copy : ArrayHeader → Nat → Exec (Variant × Nat)) {r : Changed}
    (hr : copyElements host vt psa next copy = .ok r) : r.dest = .nullArray vt := by
  obtain ⟨next', hc⟩ := (createVector_copies host hv next).right hs
  rw [copyElements, hc] at hr
  by_cases hz : psa.cElements = 0
  case pos =>
    simp only [if_pos hz] at hr
    cases hr
    rfl
  case neg =>
    simp only [if_neg hz] at hr
    contradiction

theorem copyBlock_served (hv : psa.Vector vt) (hs : host.Serves next (arrayRequests psa))
    {data : List UInt8} (hd : data.length ≤ psa.cElements * psa.cbElements) :
    ∃ psa', psa'.bare = psa.bare ∧ (∀ a ∈ psa'.addr :: psa'.pvData.toList, next ≤ a) ∧
      copyBlock host vt psa data next =
        .ok ⟨sOk, .rawArray vt psa' data, next + arrayRequests psa⟩ := by
  obtain ⟨psa', hc, hb, hf⟩ := (createVector_copies host hv next).left hs
  have hsize : u32 (psa.cbElements * psa.cElements) = psa.cElements * psa.cbElements := by
    rw [Nat.mul_comm]
    cases hv
    case empty hc _ _ _ => simp [hc]
    case full hb        => exact u32_of_lt hb
  have hcap : psa.cap = psa.cElements := by
    cases hv
    case empty hc _ _ hcap => rw [hc, hcap]
    case full hcap _       => exact hcap
  obtain ⟨hcap', _, hcb'⟩ := sizes_of_bare hb
  refine ⟨psa', hb, hf, ?_⟩
  rw [copyBlock, hc]
  simp [hsize, hcap', hcb', hcap, List.take_of_length_le hd]

theorem copyBlock_unserved (hv : psa.Vector vt) (hs : ¬host.Serves next (arrayRequests psa))
    (data : List UInt8) : copyBlock host vt psa data next = .error .read := by
  obtain ⟨next', hc⟩ := (createVector_copies host hv next).right hs
  rw [copyBlock, hc]
  rfl

end

theorem copyElements_hr {host : Host} {vt : VarType} {psa : ArrayHeader} {next : Nat}
    {copy : ArrayHeader → Nat → Exec (Variant × Nat)} {r : Changed}
    (hr : copyElements host vt psa next copy = .ok r) : r.hr = sOk := by
  simp only [copyElements] at hr
  split at hr
  case h_1 =>
    split at hr
    case isTrue  => cases hr; rfl
    case isFalse => contradiction
  case h_2 =>
    split at hr
    case isTrue => contradiction
    case isFalse =>
      split at hr
      case isTrue => contradiction
      case isFalse =>
        obtain ⟨_, _, h⟩ := ok_of_bind hr
        cases h
        rfl

theorem copyBlock_hr {host : Host} {vt : VarType} {psa : ArrayHeader} {data : List UInt8}
    {next : Nat} {r : Changed} (hr : copyBlock host vt psa data next = .ok r) : r.hr = sOk := by
  simp only [copyBlock] at hr
  split at hr
  case h_1 => contradiction
  case h_2 =>
    split at hr
    case isTrue => contradiction
    case isFalse =>
      split at hr
      case isTrue  => contradiction
      case isFalse => cases hr; rfl

-- The types that are not known make a copy fail.
theorem variantCopy_hr {host : Host} {v : Variant} {next : Nat} {r : Changed}
    (hr : variantCopy host v next = .ok r) :
    v.Supported ∧ r.hr = sOk ∨ ¬v.Supported ∧ r.hr = eBadVarType := by
  cases v
  case nullArray => contradiction
  case scalar vt val =>
    cases hp : vt.isPlain <;> simp [variantCopy, hp] at hr <;> simp [Variant.Supported, hp, ← hr]
  case rawArray vt psa data =>
    cases hp : vt.isBlock
    case false =>
      simp [variantCopy, hp] at hr
      simp [Variant.Supported, hp, ← hr]
    case true =>
      simp only [variantCopy, hp, if_true] at hr
      exact .inl ⟨hp, copyBlock_hr hr⟩
  case bstr b =>
    obtain ⟨_, _, h⟩ := ok_of_bind hr
    cases h
    exact .inl ⟨trivial, rfl⟩
  case bstrArray    => exact .inl ⟨trivial, copyElements_hr hr⟩
  case variantArray => exact .inl ⟨trivial, copyElements_hr hr⟩

-- A copy is the same as the original iff all types are known, and all requests for memory are
-- served.
mutual

theorem variantCopy_iff (host : Host) : (v : Variant) → v.Intact → (next : Nat) →
    (v.DeepSupported → host.Serves next v.requests →
      ∃ r, variantCopy host v next = .ok r ∧ r.hr = sOk ∧ r.next = next + v.requests ∧
        r.dest.bare = v.bare ∧ ∀ a ∈ r.dest.blocks, next ≤ a) ∧
    (∀ r, variantCopy host v next = .ok r → r.dest.bare = v.bare →
      v.DeepSupported ∧ host.Serves next v.requests ∧ r.next = next + v.requests)
  | .scalar vt val, hi, next => by
    cases hp : vt.isPlain
    case false =>
      refine ⟨fun h => absurd h (by simp [Variant.DeepSupported, Variant.Supported, hp]), ?_⟩
      intro r hr hb
      simp only [variantCopy, hp, Bool.false_eq_true, if_false] at hr
      cases hr
      cases vt <;> cases hb
      contradiction
    case true =>
      have hv : variantCopy host (.scalar vt val) next = .ok ⟨sOk, .scalar vt val, next⟩ := by
        simp [variantCopy, hp]
      refine ⟨fun _ _ => ⟨_, hv, rfl, rfl, rfl, fun _ h => by contradiction⟩, fun r hr _ => ?_⟩
      cases hv.symm.trans hr
      exact ⟨hp, serves_zero, rfl⟩
  | .bstr b, hi, next => by
    obtain ⟨b', hc, he, hf⟩ := sysAllocString_copies host hi next
    have hv : variantCopy host (.bstr b) next = .ok ⟨sOk, .bstr b', next + bstrRequests b⟩ := by
      simp [variantCopy, hc]
    refine ⟨fun _ hs => ⟨_, hv, rfl, rfl, congrArg Variant.bstr (he.mpr hs), hf⟩, fun r hr hb => ?_⟩
    cases hv.symm.trans hr
    exact ⟨trivial, he.mp (Variant.bstr.inj hb), rfl⟩
  | .nullArray _, hi, _ => hi.elim
  | .rawArray vt psa data, hi, next => by
    obtain ⟨_, _, hvec, hd⟩ := hi
    cases hp : vt.isBlock
    case false =>
      refine ⟨fun h => absurd h (by simp [Variant.DeepSupported, Variant.Supported, hp]), ?_⟩
      intro r hr hb
      simp only [variantCopy, hp, Bool.false_eq_true, if_false] at hr
      cases hr
      cases hb
    case true =>
      have hv : variantCopy host (.rawArray vt psa data) next =
          copyBlock host vt psa data next := by
        simp only [variantCopy, hp, if_true]
      rw [hv]
      by_cases hs : host.Serves next (arrayRequests psa)
      case pos =>
        obtain ⟨psa', hb, hf, hc⟩ := copyBlock_served hvec hs hd
        refine ⟨fun _ _ => ⟨_, hc, rfl, rfl, congrArg (Variant.rawArray vt · data) hb, hf⟩, ?_⟩
        intro r hr _
        cases hc.symm.trans hr
        exact ⟨hp, hs, rfl⟩
      case neg =>
        refine ⟨fun _ h => absurd h hs, fun r hr _ => ?_⟩
        cases (copyBlock_unserved hvec hs data).symm.trans hr
  | .bstrArray psa data, hi, next => by
    obtain ⟨hvec, _, hshort⟩ := hi
    by_cases hs : host.Serves next (arrayRequests psa)
    case pos =>
      obtain ⟨bs, hc, he, hf⟩ := bstrsCopy_copies host hshort (next + arrayRequests psa)
      obtain ⟨psa', hb, hfa, hv⟩ := copyElements_served hvec hs fun psa' next => do
        let (bs, next) ← bstrsCopy host data next
        return (.bstrArray psa' bs, next)
      simp only [hc, Exec.ok_bind] at hv
      rw [Variant.requests, serves_add, ← Nat.add_assoc]
      refine ⟨fun _ hm => ⟨_, hv, rfl, rfl, ?_, fun a ha => ?_⟩, fun r hr hbare => ?_⟩
      · simp only [Variant.bare, hb, he.mpr hm.right]
      · cases List.mem_append.mp ha
        case inl ha => exact hfa a ha
        case inr ha => exact Nat.le_trans (Nat.le_add_right _ _) (hf a ha)
      · cases hv.symm.trans hr
        exact ⟨trivial, ⟨hs, he.mp (Variant.bstrArray.inj hbare).right⟩, rfl⟩
    case neg =>
      rw [Variant.requests, serves_add]
      refine ⟨fun _ hm => absurd hm.left hs, fun r hr hbare => ?_⟩
      rw [copyElements_unserved hvec hs _ hr] at hbare
      cases hbare
  | .variantArray psa data, hi, next => by
    obtain ⟨hvec, _, hall⟩ := hi
    by_cases hs : host.Serves next (arrayRequests psa)
    case pos =>
      have ⟨hy, hn⟩ := variantsCopy_iff host data hall (next + arrayRequests psa)
      obtain ⟨psa', hb, hfa, hv⟩ := copyElements_served hvec hs fun psa' next => do
        let (vs, next) ← variantsCopy host data next
        return (.variantArray psa' vs, next)
      rw [Variant.requests, serves_add, ← Nat.add_assoc]
      refine ⟨fun hd hm => ?_, fun r hr hbare => ?_⟩
      · obtain ⟨ws, hc, he, hf⟩ := hy hd hm.right
        simp only [hc, Exec.ok_bind] at hv
        refine ⟨_, hv, rfl, rfl, by simp only [Variant.bare, hb, he], fun a ha => ?_⟩
        cases List.mem_append.mp ha
        case inl ha => exact hfa a ha
        case inr ha => exact Nat.le_trans (Nat.le_add_right _ _) (hf a ha)
      · obtain ⟨p, hp, h⟩ := ok_of_bind (hv.symm.trans hr)
        obtain ⟨⟨ws, next'⟩, hc, h'⟩ := ok_of_bind hp
        cases h'
        cases h
        obtain ⟨hd, hm, hx⟩ := hn ws next' hc (Variant.variantArray.inj hbare).right
        exact ⟨hd, ⟨hs, hm⟩, hx⟩
    case neg =>
      rw [Variant.requests, serves_add]
      refine ⟨fun _ hm => absurd hm.left hs, fun r hr hbare => ?_⟩
      rw [copyElements_unserved hvec hs _ hr] at hbare
      cases hbare

theorem variantsCopy_iff (host : Host) : (vs : List Variant) → AllIntact vs → (next : Nat) →
    (AllSupported vs → host.Serves next (allRequests vs) →
      ∃ ws, variantsCopy host vs next = .ok (ws, next + allRequests vs) ∧
        bares ws = bares vs ∧ ∀ a ∈ allBlocks ws, next ≤ a) ∧
    (∀ ws next', variantsCopy host vs next = .ok (ws, next') → bares ws = bares vs →
      AllSupported vs ∧ host.Serves next (allRequests vs) ∧ next' = next + allRequests vs)
  | [], _, next => by
    refine ⟨fun _ _ => ⟨[], rfl, rfl, fun _ h => by contradiction⟩, fun ws next' h _ => ?_⟩
    cases h
    exact ⟨trivial, serves_zero, rfl⟩
  | v :: vs, hi, next => by
    have hv := variantCopy_iff host v hi.left next
    have hvs := variantsCopy_iff host vs hi.right
    constructor
    case left =>
      intro hs hm
      obtain ⟨hm, hms⟩ := serves_add.mp hm
      obtain ⟨r, hr, _, hn, hb, hf⟩ := hv.left hs.left hm
      obtain ⟨ws, hws, hbs, hfs⟩ := (hvs _).left hs.right hms
      refine ⟨r.dest :: ws, ?_, ?_, fun a ha => ?_⟩
      · simp [variantsCopy, hr, hn, hws, allRequests, Nat.add_assoc]
      · rw [bares, bares, hb, hbs]
      · cases List.mem_append.mp ha
        case inl ha => exact hf a ha
        case inr ha => exact Nat.le_trans (Nat.le_add_right _ _) (hfs a ha)
    case right =>
      intro ws next' h hb
      obtain ⟨r, hr, h⟩ := ok_of_bind h
      obtain ⟨⟨ws', next''⟩, hws, h⟩ := ok_of_bind h
      cases h
      have ⟨hb, hbs⟩ := List.cons.inj hb
      obtain ⟨hs, hm, hn⟩ := hv.right r hr hb
      rw [hn] at hws
      obtain ⟨hss, hms, hns⟩ := (hvs _).right ws' next' hws hbs
      exact ⟨⟨hs, hss⟩, serves_add.mpr ⟨hm, hms⟩, by rw [hns, allRequests, Nat.add_assoc]⟩

end

-- The copy is the same as the original and shares no memory with it, or there is a failure.
def CopiesFaithfully (host : Host) (v : Variant) (next : Nat) : Prop :=
  ∃ r, variantCopy host v next = .ok r ∧
    (r.hr = sOk ∧ r.dest.bare = v.bare ∧ (∀ a ∈ r.dest.blocks, a ∉ v.blocks) ∨ Failed r.hr)

-- A copy is faithful iff the type of the variant itself is not known, or else all types within it
-- are known and all requests for memory are served.
theorem copiesFaithfully_iff (host : Host) {v : Variant} (hi : v.Intact) {next : Nat}
    (hold : ∀ a ∈ v.blocks, a < next) : CopiesFaithfully host v next ↔
      ¬v.Supported ∨ v.DeepSupported ∧ host.Serves next v.requests := by
  have ⟨hy, hn⟩ := variantCopy_iff host v hi next
  constructor
  case mp =>
    rintro ⟨r, hr, h⟩
    cases variantCopy_hr hr
    case inr hu => exact .inl hu.left
    case inl hs =>
      cases h
      case inl h =>
        obtain ⟨hd, hm, _⟩ := hn r hr h.right.left
        exact .inr ⟨hd, hm⟩
      case inr h => exact absurd hs.right h.ne_sOk
  case mpr =>
    intro h
    cases h
    case inl hu =>
      cases v
      case nullArray => exact hi.elim
      case scalar vt val =>
        have hp : vt.isPlain = false := Bool.eq_false_iff.mpr hu
        exact ⟨⟨eBadVarType, .init false .empty, next⟩, by simp [variantCopy, hp],
          .inr failed_eBadVarType⟩
      case rawArray vt psa data =>
        have hp : vt.isBlock = false := Bool.eq_false_iff.mpr hu
        exact ⟨⟨eBadVarType, .init false .empty, next⟩, by simp [variantCopy, hp],
          .inr failed_eBadVarType⟩
      all_goals exact absurd trivial hu
    case inr h =>
      obtain ⟨r, hr, hs, _, hb, hf⟩ := hy h.left h.right
      exact ⟨r, hr, .inl ⟨hs, hb, fun a ha hv => Nat.not_lt.mpr (hf a ha) (hold a hv)⟩⟩

-- Two strings in an array of variants.
def textsVariant : Variant :=
  .variantArray ⟨0, some 1, 0, 2, 24, 2⟩ [.bstr (some ⟨2, [65, 66]⟩), .bstr none]

theorem textsVariant_intact : textsVariant.Intact :=
  ⟨.full rfl (by decide) rfl rfl (by decide), by decide, fun b hb => by cases hb; decide,
    ⟨fun b hb => by contradiction, trivial⟩⟩

theorem textsVariant_copied : CopiesFaithfully ⟨fun _ => true, id, some⟩ textsVariant 3 :=
  copiesFaithfully_iff ⟨fun _ => true, id, some⟩ textsVariant_intact (by decide) |>.mpr <|
    .inr ⟨⟨trivial, trivial, trivial⟩, fun _ _ => rfl⟩

-- An array of which one element has a type that is not known.
def unknownElement : Variant :=
  .variantArray ⟨0, some 1, 0, 1, 24, 1⟩ [.scalar .variant 7]

theorem unknownElement_lost : ¬CopiesFaithfully ⟨fun _ => true, id, some⟩ unknownElement 2 := by
  rintro ⟨r, hr, h⟩
  cases hr
  cases h
  case inl h => cases h.right.left
  case inr h => exact absurd h (by decide)
