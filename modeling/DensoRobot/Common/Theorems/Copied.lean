import DensoRobot.Common.Copy
import DensoRobot.Common.Theorems.Copy

open HRESULT

namespace Variant

-- What `VariantCopy` makes of a variant where memory does not run out. An element of an array whose
-- type is not known gets lost.
mutual

def copied : Variant → Variant
  | scalar vt val         => if vt.isPlain then scalar vt val else init false .empty
  | bstr bstrVal          => bstr (bstrVal.map Bstr.bare)
  | nullArray vt          => nullArray vt
  | rawArray vt psa data  => if vt.isBlock then rawArray vt psa.bare data else init false .empty
  | bstrArray psa data    => bstrArray psa.bare (data.map (·.map Bstr.bare))
  | variantArray psa data => variantArray psa.bare (allCopied data)

def allCopied : List Variant → List Variant
  | []      => []
  | v :: vs => v.copied :: allCopied vs

end

@[simp]
theorem bare_bare_header (psa : ArrayHeader) : psa.bare.bare = psa.bare := by
  cases h : psa.pvData <;> simp [ArrayHeader.bare, h]

@[simp]
theorem bare_comp_bare : Bstr.bare ∘ Bstr.bare = Bstr.bare := by
  funext b
  simp [Bstr.bare, wcs_wcs]

theorem shortBstr_bare {b : Option Bstr} : ShortBstr (b.map Bstr.bare) ↔ ShortBstr b := by
  cases b
  case none   => simp [ShortBstr]
  case some b => simp [ShortBstr, Bstr.bare, wcslen, wcs_wcs]

theorem vector_bare {vt : VarType} {psa : ArrayHeader} : psa.bare.Vector vt ↔ psa.Vector vt := by
  constructor
  case mp =>
    intro h
    cases h
    case empty hc hd hs hcap => exact .empty hc (Option.map_eq_none_iff.mp hd) hs hcap
    case full hs hc hd hcap hb => exact .full hs hc (by simpa [ArrayHeader.bare] using hd) hcap hb
  case mpr =>
    intro h
    cases h
    case empty hc hd hs hcap => exact .empty hc (by simp [ArrayHeader.bare, hd]) hs hcap
    case full hs hc hd hcap hb => exact .full hs hc (by simpa [ArrayHeader.bare] using hd) hcap hb

mutual

theorem intact_of_bare : (v w : Variant) → v.bare = w.bare → v.Intact → w.Intact
  | scalar _ _,       scalar _ _,       h, hi => by cases h; exact hi
  | bstr b,           bstr b',          h, hi => by
    have hb := Variant.bstr.inj h
    exact shortBstr_bare.mp (hb ▸ shortBstr_bare.mpr hi)
  | rawArray _ _ _,   rawArray _ _ _,   h, hi => by
    obtain ⟨rfl, hp, rfl⟩ := Variant.rawArray.inj h
    obtain ⟨hv, hv', hvec, hd⟩ := hi
    obtain ⟨_, hn, hs⟩ := sizes_of_bare hp
    exact ⟨hv, hv', vector_bare.mp (hp ▸ vector_bare.mpr hvec), hn ▸ hs ▸ hd⟩
  | bstrArray _ bs,   bstrArray _ bs',  h, hi => by
    obtain ⟨hp, hbs⟩ := Variant.bstrArray.inj h
    obtain ⟨hvec, hd, hshort⟩ := hi
    obtain ⟨_, hn, _⟩ := sizes_of_bare hp
    have hl : bs.length = bs'.length := by simpa using congrArg List.length hbs
    refine ⟨vector_bare.mp (hp ▸ vector_bare.mpr hvec), hn ▸ hl ▸ hd, fun b hb => ?_⟩
    have hm : b.map Bstr.bare ∈ bs.map (·.map Bstr.bare) := hbs ▸ List.mem_map_of_mem hb
    obtain ⟨b₀, hb₀, he⟩ := List.mem_map.mp hm
    exact shortBstr_bare.mp (he ▸ shortBstr_bare.mpr (hshort b₀ hb₀))
  | variantArray _ vs, variantArray _ ws, h, hi => by
    obtain ⟨hp, hvs⟩ := Variant.variantArray.inj h
    obtain ⟨hvec, hd, hall⟩ := hi
    obtain ⟨_, hn, _⟩ := sizes_of_bare hp
    obtain ⟨hl, hall⟩ := allIntact_of_bares vs ws hvs hall
    exact ⟨vector_bare.mp (hp ▸ vector_bare.mpr hvec), hn ▸ hl ▸ hd, hall⟩
  | nullArray _, _, _, hi => hi.elim

theorem allIntact_of_bares : (vs ws : List Variant) → bares vs = bares ws → AllIntact vs →
    vs.length = ws.length ∧ AllIntact ws
  | [],      [],      _, _  => ⟨rfl, trivial⟩
  | v :: vs, w :: ws, h, hi => by
    obtain ⟨hv, hvs⟩ := List.cons.inj h
    obtain ⟨hl, hall⟩ := allIntact_of_bares vs ws hvs hi.right
    exact ⟨congrArg (· + 1) hl, intact_of_bare v w hv hi.left, hall⟩

end

mutual

theorem intact_copied : (v : Variant) → v.Intact → v.copied.Intact
  | scalar vt val,        hi => by
    simp only [copied]
    split
    case isTrue  => exact hi
    case isFalse => exact nofun
  | bstr b,               hi => shortBstr_bare.mpr hi
  | rawArray vt psa data, hi => by
    simp only [copied]
    split
    case isTrue  => exact intact_of_bare (rawArray vt psa data) _ (by simp [bare]) hi
    case isFalse => exact nofun
  | bstrArray psa bs,     hi => by
    exact intact_of_bare (bstrArray psa bs) _ (by simp [copied, bare]) hi
  | variantArray psa vs,  hi => by
    obtain ⟨hvec, hd, hall⟩ := hi
    obtain ⟨hl, hall⟩ := allIntact_copied vs hall
    exact ⟨vector_bare.mpr hvec, hl ▸ hd, hall⟩
  | nullArray _,          hi => hi.elim

theorem allIntact_copied : (vs : List Variant) → AllIntact vs →
    vs.length = (allCopied vs).length ∧ AllIntact (allCopied vs)
  | [],      _  => ⟨rfl, trivial⟩
  | v :: vs, hi => by
    obtain ⟨hl, hall⟩ := allIntact_copied vs hi.right
    exact ⟨congrArg (· + 1) hl, intact_copied v hi.left, hall⟩

end

mutual

@[simp]
theorem bare_copied : (v : Variant) → v.copied.bare = v.copied
  | scalar vt val         => by
    simp only [copied]
    split <;> rfl
  | bstr b                => by simp [copied, bare]
  | nullArray _           => rfl
  | rawArray vt psa data  => by
    simp only [copied]
    split
    case isTrue  => simp [bare]
    case isFalse => rfl
  | bstrArray psa bs      => by simp [copied, bare]
  | variantArray psa vs   => by simp [copied, bare, bares_allCopied vs]

theorem bares_allCopied : (vs : List Variant) → bares (allCopied vs) = allCopied vs
  | []      => rfl
  | v :: vs => by rw [allCopied, bares, bare_copied v, bares_allCopied vs]

end

-- The copy of a copy is the same again.
mutual

theorem copied_of_bare : (v w : Variant) → v.bare = w.copied → v.copied = w.copied
  | v, scalar vt val,       h => by
    simp only [copied] at h ⊢
    split at h
    case isTrue hp =>
      cases v <;> cases h
      simp [copied, hp]
    case isFalse hp =>
      cases v <;> cases h
      rw [if_neg hp]
      rfl
  | v, bstr b,               h => by
    cases v <;> simp [bare, copied] at h ⊢
    exact h
  | v, nullArray vt,         h => by
    cases v <;> simp [bare, copied] at h ⊢
    exact h
  | v, rawArray vt psa data, h => by
    simp only [copied] at h ⊢
    split at h
    case isTrue hp =>
      cases v <;> simp [bare] at h
      obtain ⟨rfl, hb, rfl⟩ := h
      simp [copied, hp, hb]
    case isFalse hp =>
      cases v <;> cases h
      rw [if_neg hp]
      rfl
  | v, bstrArray psa bs,     h => by
    cases v <;> simp [bare, copied] at h ⊢
    exact h
  | v, variantArray psa vs,  h => by
    cases v <;> simp [bare, copied] at h ⊢
    case variantArray => exact ⟨h.left, allCopied_of_bares _ vs h.right⟩

theorem allCopied_of_bares : (vs ws : List Variant) → bares vs = allCopied ws →
    allCopied vs = allCopied ws
  | [],      [],      _ => rfl
  | v :: vs, w :: ws, h => by
    obtain ⟨hv, hvs⟩ := List.cons.inj h
    rw [allCopied, allCopied, copied_of_bare v w hv, allCopied_of_bares vs ws hvs]

end

theorem freeArray_intact {psa : ArrayHeader} {vt : VarType} (hv : psa.Vector vt)
    {elements : Exec (List Nat)} {bs : List Nat} (h : elements = .ok bs) :
    ∃ blocks, freeArray psa elements = .ok blocks := by
  cases hp : psa.pvData
  case none   => exact ⟨_, by rw [freeArray, hp]; rfl⟩
  case some p =>
    have hle : psa.cElements ≤ psa.cap := by
      cases hv
      case empty hd _ _  => simp [hp] at hd
      case full hcap _ => exact Nat.le_of_eq hcap.symm
    exact ⟨_, by simp only [freeArray, hp, if_pos hle, h, Exec.ok_bind]; rfl⟩

-- Nothing in a variant that can be there is in the way of its release.
mutual

theorem variantClear_intact : (v : Variant) → v.Intact → ∃ blocks, variantClear v = .ok blocks
  | scalar _ _,           _  => ⟨_, rfl⟩
  | bstr _,               _  => ⟨_, rfl⟩
  | rawArray _ _ _,       _  => ⟨_, rfl⟩
  | nullArray _,          hi => hi.elim
  | bstrArray _ _,        hi => freeArray_intact hi.left rfl
  | variantArray _ vs,    hi => by
    obtain ⟨_, h⟩ := variantsClear_intact vs hi.right.right
    exact freeArray_intact hi.left h

theorem variantsClear_intact : (vs : List Variant) → AllIntact vs →
    ∃ blocks, variantsClear vs = .ok blocks
  | [],      _  => ⟨_, rfl⟩
  | v :: vs, hi => by
    obtain ⟨_, hv⟩ := variantClear_intact v hi.left
    obtain ⟨_, hvs⟩ := variantsClear_intact vs hi.right
    exact ⟨_, by simp only [variantsClear, hv, hvs, Exec.ok_bind]; rfl⟩

end

end Variant

theorem Host.Ample.serves {host : Host} (hh : host.Ample) (next n : Nat) : host.Serves next n :=
  fun i _ => hh (next + i)

open Variant

-- Without lack of memory a variant is copied.
mutual

theorem variantCopy_copied {host : Host} (hh : host.Ample) : (v : Variant) → v.Intact →
    (next : Nat) → ∃ r, variantCopy host v next = .ok r ∧ r.dest.bare = v.copied
  | .scalar vt val,        _,  next => by
    cases hp : vt.isPlain
    case true  =>
      exact ⟨⟨sOk, .scalar vt val, next⟩, by simp [variantCopy, hp], by simp [copied, hp, bare]⟩
    case false =>
      exact ⟨⟨eBadVarType, .init false .empty, next⟩, by simp [variantCopy, hp],
        by simp [copied, hp, init, bare]⟩
  | .bstr b,               hi, next => by
    obtain ⟨b', hc, he, _⟩ := sysAllocString_copies host hi next
    refine ⟨⟨sOk, .bstr b', next + bstrRequests b⟩, by simp [variantCopy, hc], ?_⟩
    exact congrArg Variant.bstr (he.mpr (hh.serves _ _))
  | .nullArray _,          hi, _    => hi.elim
  | .rawArray vt psa data, hi, next => by
    obtain ⟨_, _, hvec, hd⟩ := hi
    cases hp : vt.isBlock
    case true  =>
      obtain ⟨psa', hb, _, hc⟩ := copyBlock_served hvec (hh.serves next _) hd
      refine ⟨_, by simp only [variantCopy, hp, if_true]; exact hc, ?_⟩
      simp [copied, hp, bare, hb]
    case false =>
      exact ⟨⟨eBadVarType, .init false .empty, next⟩, by simp [variantCopy, hp],
        by simp [copied, hp, init, bare]⟩
  | .bstrArray psa data,   hi, next => by
    obtain ⟨hvec, _, hshort⟩ := hi
    obtain ⟨bs, hc, he, _⟩ := bstrsCopy_copies host hshort (next + arrayRequests psa)
    obtain ⟨psa', hb, _, hv⟩ := copyElements_served hvec (hh.serves next _) fun psa' next => do
      let (bs, next) ← bstrsCopy host data next
      return (.bstrArray psa' bs, next)
    simp only [hc, Exec.ok_bind] at hv
    refine ⟨_, hv, ?_⟩
    simp only [copied, bare, hb, he.mpr (hh.serves _ _)]
  | .variantArray psa data, hi, next => by
    obtain ⟨hvec, _, hall⟩ := hi
    obtain ⟨ws, next', hc, he⟩ := variantsCopy_copied hh data hall (next + arrayRequests psa)
    obtain ⟨psa', hb, _, hv⟩ := copyElements_served hvec (hh.serves next _) fun psa' next => do
      let (vs, next) ← variantsCopy host data next
      return (.variantArray psa' vs, next)
    simp only [hc, Exec.ok_bind] at hv
    refine ⟨_, hv, ?_⟩
    simp only [copied, bare, hb, he]

theorem variantsCopy_copied {host : Host} (hh : host.Ample) : (vs : List Variant) → AllIntact vs →
    (next : Nat) → ∃ ws next', variantsCopy host vs next = .ok (ws, next') ∧ bares ws = allCopied vs
  | [],      _,  next => ⟨[], next, rfl, rfl⟩
  | v :: vs, hi, next => by
    obtain ⟨r, hr, hb⟩ := variantCopy_copied hh v hi.left next
    obtain ⟨ws, next', hws, hbs⟩ := variantsCopy_copied hh vs hi.right r.next
    refine ⟨r.dest :: ws, next', by simp [variantsCopy, hr, hws], ?_⟩
    rw [bares, allCopied, hb, hbs]

end
